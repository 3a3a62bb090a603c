import Raftz.MigrationIntents
import Raftz.WalRecords
import Mathlib.Tactic.IntervalCases

/-! # What is on disk is read back

The formats of the files of a node: entries and configurations inside the records
of the log (`wal.zig`), the metadata file (`wal/metadata_store.zig`), snapshot files
(`wal/snapshot_store.zig`) and the intents of migrations
(`migration_intent_store.zig`).  Integers are little-endian; a checksum is an
arbitrary function.

Every decoder reads back what its encoder writes, the older versions of the metadata
and snapshot formats included, and none accepts a file with bytes missing or added
at the end (`PrefixFree`): the length of a file is announced by the fields in it. -/

open Base

namespace Raftz

namespace DiskFormats

/-! ### Fields at offsets -/

/-- No proper prefix of an accepted byte string is accepted. -/
def PrefixFree {ε α : Type} (decode : Bytes → Except ε α) : Prop :=
  ∀ p t a b, decode p = .ok a → decode (p ++ t) = .ok b → t = []

theorem intAt_append {p t : Bytes} {offset width : ℕ} (h : offset + width ≤ p.length) :
    intAt (p ++ t) offset width = intAt p offset width := by
  unfold intAt
  rw [List.drop_append_of_le_length (by omega), List.take_append_of_le_length (by simp; omega)]

/-- Fields before an offset are passed over. -/
@[simp] theorem drop_leBytes_append {n v width : ℕ} {rest : Bytes} (h : width ≤ n) :
    (leBytes v width ++ rest).drop n = rest.drop (n - width) := by
  rw [List.drop_append, List.drop_of_length_le (by simpa using h), List.nil_append, length_leBytes]

@[simp] theorem take_leBytes_append {v width : ℕ} {rest : Bytes} :
    (leBytes v width ++ rest).take width = leBytes v width := List.take_left' (length_leBytes v width)

/-- A field and what follows it. -/
theorem leBytes_intAt_append {data : Bytes} {offset width : ℕ} (h : offset + width ≤ data.length) :
    leBytes (intAt data offset width) width ++ data.drop (offset + width) = data.drop offset := by
  have hlen : ((data.drop offset).take width).length = width := by
    simp
    omega
  have hbytes := leBytes_ofLeBytes ((data.drop offset).take width)
  rw [hlen] at hbytes
  rw [intAt, hbytes, ← List.drop_drop, List.take_append_drop]

theorem intAt_lt {data : Bytes} (offset : ℕ) {width : ℕ} : intAt data offset width < 256 ^ width := by
  have hle : ((data.drop offset).take width).length ≤ width := List.length_take_le _ _
  exact (ofLeBytes_lt _).trans_le (Nat.pow_le_pow_right (by norm_num) hle)

/-- Numbers of eight bytes, one after the other. -/
def idsAt (data : Bytes) (offset : ℕ) : ℕ → List ℕ
  | 0 => []
  | n + 1 => intAt data offset 8 :: idsAt data (offset + 8) n

theorem idsAt_flatMap {a rest : Bytes} {ids : List ℕ} {offset : ℕ} (ho : a.length = offset)
    (hids : ∀ i ∈ ids, i < 256 ^ 8) :
    idsAt (a ++ ((ids.flatMap fun i => leBytes i 8) ++ rest)) offset ids.length = ids := by
  induction ids generalizing a offset with
  | nil => rfl
  | cons i ids ih =>
      have hi := hids i List.mem_cons_self
      have htail := @ih (a ++ leBytes i 8) (offset + 8) (by simp [ho])
        fun j hj => hids j (List.mem_cons_of_mem _ hj)
      simp only [List.flatMap_cons, List.append_assoc, List.length_cons, idsAt] at htail ⊢
      rw [intAt_append_leBytes ho hi, htail]

/-! ### Entries -/

/-- The member of `EntryType` with a numeric value. -/
def entryTypeOf (b : UInt8) : Option EntryType := EntryType.all.find? fun t => t.toByte == b

theorem entryTypeOf_eq_some {b : UInt8} {t : EntryType} : entryTypeOf b = some t ↔ t.toByte = b := by
  constructor
  · intro h
    simpa using List.find?_some h
  · rintro rfl
    cases t <;> decide

/-- An entry as the payload of a record. -/
def serializeEntry (e : Entry) : Except WalErr Bytes := do
  ensure (e.data.length < 2 ^ 32) .recordTooLarge
  ensure (e.context.length < 2 ^ 32) .recordTooLarge
  return e.entryType.toByte :: (leBytes e.term 8 ++ (leBytes e.index 8 ++ (leBytes e.checksum 4 ++
    (leBytes e.data.length 4 ++ (e.data ++ (leBytes e.context.length 4 ++ e.context))))))

/-- The entry of a payload. -/
def deserializeEntry (data : Bytes) : Except WalErr Entry := do
  ensure (1 + 8 + 8 + 4 + 4 ≤ data.length) .entryParseError
  match entryTypeOf (data.getD 0 0) with
  | none => .error .entryParseError
  | some entryType => do
      let dataLen := intAt data 21 4
      ensure (25 + dataLen + 4 ≤ data.length) .entryParseError
      let ctxLen := intAt data (25 + dataLen) 4
      ensure (data.length = 29 + dataLen + ctxLen) .entryParseError
      return { entryType := entryType, term := intAt data 1 8, index := intAt data 9 8
               data := (data.drop 25).take dataLen, context := (data.drop (29 + dataLen)).take ctxLen
               checksum := intAt data 17 4 }

/-- The fields of the entry fit their widths. -/
structure EntryFits (e : Entry) : Prop where
  term : e.term < 256 ^ 8
  index : e.index < 256 ^ 8
  checksum : e.checksum < 256 ^ 4
  data : e.data.length < 2 ^ 32
  context : e.context.length < 2 ^ 32

theorem deserialize_serializeEntry {e : Entry} (h : EntryFits e) :
    ∃ bytes, serializeEntry e = .ok bytes ∧ deserializeEntry bytes = .ok e := by
  have hdata : e.data.length < 256 ^ 4 := h.data.trans_eq (by norm_num)
  have hctx : e.context.length < 256 ^ 4 := h.context.trans_eq (by norm_num)
  refine ⟨_, bind_eq_ok.mpr ⟨(), ensure_of h.data, bind_eq_ok.mpr ⟨(), ensure_of h.context, rfl⟩⟩, ?_⟩
  generalize hb : e.entryType.toByte :: (leBytes e.term 8 ++ (leBytes e.index 8 ++
    (leBytes e.checksum 4 ++ (leBytes e.data.length 4 ++ (e.data ++
      (leBytes e.context.length 4 ++ e.context)))))) = bytes
  have hlen : bytes.length = 29 + e.data.length + e.context.length := by
    simp [← hb]
    omega
  have hkind : entryTypeOf (bytes.getD 0 0) = some e.entryType := by
    rw [entryTypeOf_eq_some, ← hb]
    rfl
  have hterm : intAt bytes 1 8 = e.term := by simpa [← hb, intAt] using ofLeBytes_leBytes h.term
  have hindex : intAt bytes 9 8 = e.index := by simpa [← hb, intAt] using ofLeBytes_leBytes h.index
  have hsum : intAt bytes 17 4 = e.checksum := by simpa [← hb, intAt] using ofLeBytes_leBytes h.checksum
  have hdlen : intAt bytes 21 4 = e.data.length := by simpa [← hb, intAt] using ofLeBytes_leBytes hdata
  have hclen : intAt bytes (25 + e.data.length) 4 = e.context.length := by
    have hc := @intAt_append_leBytes (e.entryType.toByte :: (leBytes e.term 8 ++ (leBytes e.index 8 ++
      (leBytes e.checksum 4 ++ (leBytes e.data.length 4 ++ e.data))))) e.context e.context.length
      (25 + e.data.length) 4 (by simp; omega) hctx
    simpa [← hb] using hc
  have hdbytes : (bytes.drop 25).take e.data.length = e.data := by simp [← hb]
  have hcbytes : (bytes.drop (29 + e.data.length)).take e.context.length = e.context := by
    have hsplit : bytes = (e.entryType.toByte :: (leBytes e.term 8 ++ (leBytes e.index 8 ++
        (leBytes e.checksum 4 ++ (leBytes e.data.length 4 ++ (e.data ++
          leBytes e.context.length 4)))))) ++ e.context := by simp [← hb]
    rw [hsplit, List.drop_left' (by simp; omega), List.take_length]
  unfold deserializeEntry
  rw [ensure_of (by omega), hkind]
  dsimp only
  rw [hdlen, hclen, ensure_of (by omega), ensure_of (by omega), hterm, hindex, hsum, hdbytes, hcbytes]
  rfl

/-- What `deserializeEntry` has looked at when it succeeds. -/
theorem deserializeEntry_ok {data : Bytes} {e : Entry} (h : deserializeEntry data = .ok e) :
    25 + intAt data 21 4 + 4 ≤ data.length ∧
      data.length = 29 + intAt data 21 4 + intAt data (25 + intAt data 21 4) 4 ∧
      (data.getD 0 0) = e.entryType.toByte ∧ e.term = intAt data 1 8 ∧ e.index = intAt data 9 8 ∧
      e.checksum = intAt data 17 4 ∧ e.data = (data.drop 25).take (intAt data 21 4) ∧
      e.context = (data.drop (29 + intAt data 21 4)).take (intAt data (25 + intAt data 21 4) 4) := by
  obtain ⟨_, -, h⟩ := bind_eq_ok.mp h
  split at h
  · cases h
  · rename_i t ht
    obtain ⟨_, hle, h⟩ := bind_eq_ok.mp h
    obtain ⟨_, hlen, h⟩ := bind_eq_ok.mp h
    cases h
    exact ⟨ensure_eq_ok.mp hle, ensure_eq_ok.mp hlen, (entryTypeOf_eq_some.mp ht).symm, rfl, rfl, rfl,
      rfl, rfl⟩

/-- A payload is the encoding of the entry it is accepted as. -/
theorem serialize_deserializeEntry {data : Bytes} {e : Entry} (h : deserializeEntry data = .ok e) :
    serializeEntry e = .ok data := by
  obtain ⟨hle, hlen, hkind, hterm, hindex, hsum, hdata, hctx⟩ := deserializeEntry_ok h
  have hdlen : e.data.length = intAt data 21 4 := by
    rw [hdata]
    simp
    omega
  have hclen : e.context.length = intAt data (25 + intAt data 21 4) 4 := by
    rw [hctx]
    simp
    omega
  have hbound : ∀ offset, intAt data offset 4 < 2 ^ 32 := fun offset =>
    (intAt_lt offset).trans_eq (by norm_num)
  refine bind_eq_ok.mpr ⟨(), ensure_of (hdlen ▸ hbound _), ?_⟩
  refine bind_eq_ok.mpr ⟨(), ensure_of (hclen ▸ hbound _), ?_⟩
  show Except.ok _ = Except.ok data
  congr 1
  have hend : e.context = data.drop (29 + intAt data 21 4) := by
    rw [hctx, List.take_of_length_le]
    simp
    omega
  have hmid : e.data ++ data.drop (25 + intAt data 21 4) = data.drop 25 := by
    rw [hdata, ← List.drop_drop, List.take_append_drop]
  have hcount : leBytes (intAt data (25 + intAt data 21 4) 4) 4 ++ data.drop (25 + intAt data 21 4 + 4) =
      data.drop (25 + intAt data 21 4) := leBytes_intAt_append (by omega)
  have h29 : 25 + intAt data 21 4 + 4 = 29 + intAt data 21 4 := by omega
  rw [h29] at hcount
  rw [hclen, hend, hcount, hmid, hdlen, hsum, hindex, hterm, leBytes_intAt_append (by omega),
    leBytes_intAt_append (by omega), leBytes_intAt_append (by omega), leBytes_intAt_append (by omega), ← hkind]
  cases data with
  | nil => simp at hle
  | cons b data => rfl

theorem prefixFree_deserializeEntry : PrefixFree deserializeEntry := by
  intro p t a b ha hb
  obtain ⟨hle, hlen, -⟩ := deserializeEntry_ok ha
  obtain ⟨-, hlen', -⟩ := deserializeEntry_ok hb
  rw [intAt_append (by omega), intAt_append (by omega), List.length_append] at hlen'
  exact List.length_eq_zero_iff.mp (by omega)

/-! ### Configurations -/

/-- Numbers behind their count. -/
def writeU64Slice (vs : List ℕ) : Except WalErr Bytes := do
  ensure (vs.length < 2 ^ 32) .recordTooLarge
  return leBytes vs.length 4 ++ vs.flatMap fun v => leBytes v 8

/-- A configuration as the payload of a record. -/
def serializeConfState (cs : ConfState) : Except WalErr Bytes := do
  let voters ← writeU64Slice cs.voters
  let learners ← writeU64Slice cs.learners
  let votersOutgoing ← writeU64Slice cs.votersOutgoing
  let learnersNext ← writeU64Slice cs.learnersNext
  return voters ++ (learners ++ (votersOutgoing ++ (learnersNext ++ [if cs.autoLeave then 1 else 0])))

/-- The numbers behind a count, and where they end. -/
def readU64Slice (data : Bytes) (pos : ℕ) : Except WalErr (List ℕ × ℕ) := do
  ensure (pos + 4 ≤ data.length) .confStateParseError
  let count := intAt data pos 4
  ensure (pos + 4 + count * 8 ≤ data.length) .confStateParseError
  return (idsAt data (pos + 4) count, pos + 4 + count * 8)

/-- The configuration of a payload. -/
def deserializeConfState (data : Bytes) : Except WalErr ConfState := do
  let (voters, pos) ← readU64Slice data 0
  let (learners, pos) ← readU64Slice data pos
  let (votersOutgoing, pos) ← readU64Slice data pos
  let (learnersNext, pos) ← readU64Slice data pos
  ensure (pos + 1 = data.length) .confStateParseError
  return ⟨voters, learners, votersOutgoing, learnersNext, data.getD pos 0 != 0⟩

/-- The ids of the configuration are 64-bit numbers, and its lists are short. -/
def ConfStateFits (cs : ConfState) : Prop :=
  ∀ vs ∈ [cs.voters, cs.learners, cs.votersOutgoing, cs.learnersNext],
    vs.length < 2 ^ 32 ∧ ∀ v ∈ vs, v < 256 ^ 8

/-- The bytes of a list of ids. -/
def sliceBytes (vs : List ℕ) : Bytes := leBytes vs.length 4 ++ vs.flatMap fun v => leBytes v 8

@[simp] theorem length_sliceBytes (vs : List ℕ) : (sliceBytes vs).length = 4 + vs.length * 8 := by
  simp only [sliceBytes, List.length_append, length_leBytes, ClusterMembership.length_flatMap_leBytes]

theorem writeU64Slice_of {vs : List ℕ} (h : vs.length < 2 ^ 32) : writeU64Slice vs = .ok (sliceBytes vs) :=
  bind_eq_ok.mpr ⟨(), ensure_of h, rfl⟩

theorem readU64Slice_of {data a rest : Bytes} {vs : List ℕ} {pos : ℕ}
    (hd : data = a ++ (sliceBytes vs ++ rest)) (hp : a.length = pos)
    (h : vs.length < 2 ^ 32 ∧ ∀ v ∈ vs, v < 256 ^ 8) :
    readU64Slice data pos = .ok (vs, pos + 4 + vs.length * 8) := by
  have hn : vs.length < 256 ^ 4 := h.1.trans_eq (by norm_num)
  have hsize : data.length = pos + (4 + vs.length * 8) + rest.length := by
    rw [hd, List.length_append, List.length_append, length_sliceBytes, hp]
    omega
  have hcount : intAt data pos 4 = vs.length := by
    rw [hd, sliceBytes, List.append_assoc]
    exact intAt_append_leBytes hp hn
  have hids : idsAt data (pos + 4) vs.length = vs := by
    have hids := @idsAt_flatMap (a ++ leBytes vs.length 4) rest vs (pos + 4) (by simp [hp]) h.2
    rwa [hd, sliceBytes, List.append_assoc, ← List.append_assoc a]
  unfold readU64Slice
  dsimp only
  rw [hcount, hids]
  exact bind_eq_ok.mpr ⟨(), ensure_of (by omega), bind_eq_ok.mpr ⟨(), ensure_of (by omega), rfl⟩⟩

theorem deserialize_serializeConfState {cs : ConfState} (h : ConfStateFits cs) :
    ∃ bytes, serializeConfState cs = .ok bytes ∧ deserializeConfState bytes = .ok cs := by
  have hv := h cs.voters (by simp)
  have hl := h cs.learners (by simp)
  have ho := h cs.votersOutgoing (by simp)
  have hn := h cs.learnersNext (by simp)
  let flag : Bytes := [if cs.autoLeave then 1 else 0]
  refine ⟨sliceBytes cs.voters ++ (sliceBytes cs.learners ++ (sliceBytes cs.votersOutgoing ++
    (sliceBytes cs.learnersNext ++ flag))), ?_, ?_⟩
  · refine bind_eq_ok.mpr ⟨_, writeU64Slice_of hv.1, bind_eq_ok.mpr ⟨_, writeU64Slice_of hl.1, ?_⟩⟩
    exact bind_eq_ok.mpr ⟨_, writeU64Slice_of ho.1, bind_eq_ok.mpr ⟨_, writeU64Slice_of hn.1, rfl⟩⟩
  · generalize hd : sliceBytes cs.voters ++ (sliceBytes cs.learners ++ (sliceBytes cs.votersOutgoing ++
      (sliceBytes cs.learnersNext ++ flag))) = data
    have h1 := @readU64Slice_of data [] _ _ _ hd.symm rfl hv
    have h2 := @readU64Slice_of data (sliceBytes cs.voters) _ _ (0 + 4 + cs.voters.length * 8)
      hd.symm (by simp) hl
    have h3 := @readU64Slice_of data (sliceBytes cs.voters ++ sliceBytes cs.learners)
      (sliceBytes cs.learnersNext ++ flag) cs.votersOutgoing
      (0 + 4 + cs.voters.length * 8 + 4 + cs.learners.length * 8) (by simp [← hd]) (by simp; omega) ho
    have h4 := @readU64Slice_of data (sliceBytes cs.voters ++ (sliceBytes cs.learners ++
      sliceBytes cs.votersOutgoing)) flag cs.learnersNext
      (0 + 4 + cs.voters.length * 8 + 4 + cs.learners.length * 8 + 4 + cs.votersOutgoing.length * 8)
      (by simp [← hd]) (by simp; omega) hn
    have hsplit : data = (sliceBytes cs.voters ++ (sliceBytes cs.learners ++
        (sliceBytes cs.votersOutgoing ++ sliceBytes cs.learnersNext))) ++ flag := by simp [← hd]
    have hlen : 0 + 4 + cs.voters.length * 8 + 4 + cs.learners.length * 8 + 4 +
        cs.votersOutgoing.length * 8 + 4 + cs.learnersNext.length * 8 + 1 = data.length := by
      simp [hsplit, flag]
      omega
    have hflag : (data.getD (0 + 4 + cs.voters.length * 8 + 4 + cs.learners.length * 8 + 4 +
        cs.votersOutgoing.length * 8 + 4 + cs.learnersNext.length * 8) 0 != 0) = cs.autoLeave := by
      have hdrop : data.drop (0 + 4 + cs.voters.length * 8 + 4 + cs.learners.length * 8 + 4 +
          cs.votersOutgoing.length * 8 + 4 + cs.learnersNext.length * 8) = flag := by
        rw [hsplit]
        exact List.drop_left' (by simp; omega)
      rw [List.getD_eq_getElem?_getD, ← List.head?_drop, hdrop]
      cases hauto : cs.autoLeave <;> simp [flag, hauto]
    refine bind_eq_ok.mpr ⟨_, h1, bind_eq_ok.mpr ⟨_, h2, bind_eq_ok.mpr ⟨_, h3, bind_eq_ok.mpr ⟨_, h4, ?_⟩⟩⟩⟩
    refine bind_eq_ok.mpr ⟨(), ensure_of hlen, ?_⟩
    rw [hflag]
    rfl

theorem readU64Slice_ok {data : Bytes} {pos pos' : ℕ} {vs : List ℕ}
    (h : readU64Slice data pos = .ok (vs, pos')) :
    pos' = pos + 4 + intAt data pos 4 * 8 ∧ pos' ≤ data.length := by
  obtain ⟨_, -, h⟩ := bind_eq_ok.mp h
  obtain ⟨_, hle, h⟩ := bind_eq_ok.mp h
  cases h
  exact ⟨rfl, ensure_eq_ok.mp hle⟩

theorem prefixFree_deserializeConfState : PrefixFree deserializeConfState := by
  intro p t a b ha hb
  obtain ⟨⟨v1, p1⟩, h1, ha⟩ := bind_eq_ok.mp ha
  obtain ⟨⟨v2, p2⟩, h2, ha⟩ := bind_eq_ok.mp ha
  obtain ⟨⟨v3, p3⟩, h3, ha⟩ := bind_eq_ok.mp ha
  obtain ⟨⟨v4, p4⟩, h4, ha⟩ := bind_eq_ok.mp ha
  obtain ⟨_, hend, -⟩ := bind_eq_ok.mp ha
  obtain ⟨⟨w1, q1⟩, k1, hb⟩ := bind_eq_ok.mp hb
  obtain ⟨⟨w2, q2⟩, k2, hb⟩ := bind_eq_ok.mp hb
  obtain ⟨⟨w3, q3⟩, k3, hb⟩ := bind_eq_ok.mp hb
  obtain ⟨⟨w4, q4⟩, k4, hb⟩ := bind_eq_ok.mp hb
  obtain ⟨_, hend', -⟩ := bind_eq_ok.mp hb
  have hend := ensure_eq_ok.mp hend
  have hend' := ensure_eq_ok.mp hend'
  -- the four counts are the same in both
  have hsame : ∀ {pos pos1 pos2 : ℕ} {vs ws : List ℕ}, readU64Slice p pos = .ok (vs, pos1) →
      readU64Slice (p ++ t) pos = .ok (ws, pos2) → pos2 = pos1 := by
    intro pos pos1 pos2 vs ws h k
    obtain ⟨rfl, hle⟩ := readU64Slice_ok h
    obtain ⟨rfl, -⟩ := readU64Slice_ok k
    rw [intAt_append (by omega)]
  obtain rfl := hsame h1 k1
  obtain rfl := hsame h2 k2
  obtain rfl := hsame h3 k3
  obtain rfl := hsame h4 k4
  rw [List.length_append] at hend'
  exact List.length_eq_zero_iff.mp (by omega)

/-! ### The metadata file -/

/-- The metadata of a log; the states are kept encoded. -/
structure Metadata where
  version : ℕ := 4
  firstIndex : ℕ := 1
  snapshotIndex : ℕ := 0
  snapshotTerm : ℕ := 0
  firstSegmentId : ℕ := 0
  incarnation : ℕ := 0
  membershipIndex : ℕ := 0
  hardState : Bytes := []
  confState : Bytes := []
  clusterMembership : Bytes := []
  deriving DecidableEq, Repr

namespace Metadata

/-- The characters `META`, as a number. -/
def metadataMagic : ℕ := 0x4D455441
/-- Version of the format. -/
def formatVersion : ℕ := 4
/-- Bytes before the content: magic, version, checksum and four reserved bytes. -/
def headerSize : ℕ := 16
/-- Bytes of the numbers of the content. -/
def contentSize : ℕ := 48
/-- Bound on the size of the file. -/
def maxMetadataSize : ℕ := 16 * 1024 * 1024

/-- Bytes of the numbers of the content in a version. -/
def contentSizeOf (version : ℕ) : ℕ :=
  if version = 1 then 24 else if version = 2 then 32 else if version = 3 then 40 else contentSize

/-- Length-prefixed bytes. -/
def blob (bs : Bytes) : Bytes := leBytes bs.length 4 ++ bs

/-- What the checksum of a file covers. -/
def content (m : Metadata) : Bytes :=
  leBytes 0 4 ++ (leBytes m.firstIndex 8 ++ (leBytes m.snapshotIndex 8 ++ (leBytes m.snapshotTerm 8 ++
    (leBytes m.firstSegmentId 8 ++ (leBytes m.incarnation 8 ++ (leBytes m.membershipIndex 8 ++
      (blob m.hardState ++ (blob m.confState ++ blob m.clusterMembership))))))))

section file
variable (crc : Bytes → UInt32)

/-- Encode the metadata, in the current version. -/
def encode (m : Metadata) : Except WalErr Bytes := do
  ensure (m.hardState.length < 2 ^ 32) .metadataCorrupt
  ensure (m.confState.length < 2 ^ 32) .metadataCorrupt
  ensure (m.clusterMembership.length < 2 ^ 32) .metadataCorrupt
  ensure (headerSize + contentSize + (4 + m.hardState.length) + (4 + m.confState.length) +
    (4 + m.clusterMembership.length) ≤ maxMetadataSize) .metadataCorrupt
  return leBytes metadataMagic 4 ++ (leBytes formatVersion 4 ++ (leBytes (crc m.content).toNat 4 ++ m.content))

/-- Length-prefixed bytes at an offset, and where they end. -/
def readBlob (data : Bytes) (offset : ℕ) : Except WalErr (Bytes × ℕ) := do
  ensure (offset + 4 ≤ data.length) .metadataCorrupt
  let len := intAt data offset 4
  ensure (offset + 4 + len ≤ data.length) .metadataCorrupt
  return ((data.drop (offset + 4)).take len, offset + 4 + len)

/-- Decode the metadata, in any version. -/
def decode (data : Bytes) : Except WalErr Metadata := do
  ensure (headerSize + 24 + 8 ≤ data.length) .metadataCorrupt
  ensure (intAt data 0 4 = metadataMagic) .metadataCorrupt
  let version := intAt data 4 4
  ensure (1 ≤ version ∧ version ≤ formatVersion) .metadataCorrupt
  let fixed := headerSize + contentSizeOf version
  ensure (fixed + (if 4 ≤ version then 12 else 8) ≤ data.length) .metadataCorrupt
  ensure ((crc (data.drop 12)).toNat = intAt data 8 4) .metadataCorrupt
  ensure (intAt data 16 8 ≠ 0) .metadataCorrupt
  let (hardState, offset) ← readBlob data fixed
  let (confState, offset) ← readBlob data offset
  let m : Metadata := {
    version := version
    firstIndex := intAt data 16 8
    snapshotIndex := intAt data 24 8
    snapshotTerm := intAt data 32 8
    firstSegmentId := if 2 ≤ version then intAt data 40 8 else 0
    incarnation := if 3 ≤ version then intAt data 48 8 else 0
    membershipIndex := if 4 ≤ version then intAt data 56 8 else 0
    hardState := hardState
    confState := confState }
  if version < 4 then
    ensure (offset = data.length) .metadataCorrupt
    return m
  else
    let (clusterMembership, offset) ← readBlob data offset
    ensure (offset = data.length) .metadataCorrupt
    return { m with clusterMembership := clusterMembership }

/-- A file of a version, as its own encoder wrote it: the fields that came later are missing. -/
def fileOf (version : ℕ) (m : Metadata) : Bytes :=
  let content := leBytes 0 4 ++ (leBytes m.firstIndex 8 ++ (leBytes m.snapshotIndex 8 ++
    (leBytes m.snapshotTerm 8 ++ ((if 2 ≤ version then leBytes m.firstSegmentId 8 else []) ++
      ((if 3 ≤ version then leBytes m.incarnation 8 else []) ++
        ((if 4 ≤ version then leBytes m.membershipIndex 8 else []) ++ (blob m.hardState ++
          (blob m.confState ++ (if 4 ≤ version then blob m.clusterMembership else [])))))))))
  leBytes metadataMagic 4 ++ (leBytes version 4 ++ (leBytes (crc content).toNat 4 ++ content))

end file

/-- What a file of a version keeps of the metadata; the rest has its default. -/
def asOf (version : ℕ) (m : Metadata) : Metadata := { m with
  version := version
  firstSegmentId := if 2 ≤ version then m.firstSegmentId else 0
  incarnation := if 3 ≤ version then m.incarnation else 0
  membershipIndex := if 4 ≤ version then m.membershipIndex else 0
  clusterMembership := if 4 ≤ version then m.clusterMembership else [] }

/-- The numbers are 64-bit numbers, and the states are short. -/
structure Fits (m : Metadata) : Prop where
  firstIndex : m.firstIndex < 256 ^ 8
  snapshotIndex : m.snapshotIndex < 256 ^ 8
  snapshotTerm : m.snapshotTerm < 256 ^ 8
  firstSegmentId : m.firstSegmentId < 256 ^ 8
  incarnation : m.incarnation < 256 ^ 8
  membershipIndex : m.membershipIndex < 256 ^ 8
  hardState : m.hardState.length < 256 ^ 4
  confState : m.confState.length < 256 ^ 4
  clusterMembership : m.clusterMembership.length < 256 ^ 4

variable {crc : Bytes → UInt32} {m : Metadata} {version : ℕ}

theorem readBlob_of {data a rest bs : Bytes} {offset : ℕ} (hd : data = a ++ (blob bs ++ rest))
    (hp : a.length = offset) (h : bs.length < 256 ^ 4) :
    readBlob data offset = .ok (bs, offset + 4 + bs.length) := by
  have hsize : data.length = offset + (4 + bs.length) + rest.length := by
    simp [hd, blob, hp]
    omega
  have hlen : intAt data offset 4 = bs.length := by
    rw [hd, blob, List.append_assoc]
    exact intAt_append_leBytes hp h
  have hbytes : (data.drop (offset + 4)).take bs.length = bs := by
    have hsplit : data = (a ++ leBytes bs.length 4) ++ (bs ++ rest) := by simp [hd, blob]
    rw [hsplit, List.drop_left' (by simp [hp]), List.take_left]
  unfold readBlob
  dsimp only
  rw [hlen, hbytes]
  exact bind_eq_ok.mpr ⟨(), ensure_of (by omega), bind_eq_ok.mpr ⟨(), ensure_of (by omega), rfl⟩⟩

theorem readBlob_ok {data bs : Bytes} {offset offset' : ℕ} (h : readBlob data offset = .ok (bs, offset')) :
    offset' = offset + 4 + intAt data offset 4 ∧ offset' ≤ data.length := by
  obtain ⟨_, -, h⟩ := bind_eq_ok.mp h
  obtain ⟨_, hle, h⟩ := bind_eq_ok.mp h
  cases h
  exact ⟨rfl, ensure_eq_ok.mp hle⟩

/-- The part of the content before the states. -/
def numbersOf (version : ℕ) (m : Metadata) : Bytes :=
  leBytes 0 4 ++ (leBytes m.firstIndex 8 ++ (leBytes m.snapshotIndex 8 ++ (leBytes m.snapshotTerm 8 ++
    ((if 2 ≤ version then leBytes m.firstSegmentId 8 else []) ++
      ((if 3 ≤ version then leBytes m.incarnation 8 else []) ++
        (if 4 ≤ version then leBytes m.membershipIndex 8 else []))))))

/-- The states at the end of a file. -/
def statesOf (version : ℕ) (m : Metadata) : Bytes :=
  blob m.hardState ++ (blob m.confState ++ (if 4 ≤ version then blob m.clusterMembership else []))

theorem length_numbersOf (hv : 1 ≤ version ∧ version ≤ 4) (m : Metadata) :
    (numbersOf version m).length = 4 + contentSizeOf version := by
  obtain ⟨h1, h4⟩ := hv
  interval_cases version <;> simp [numbersOf, contentSizeOf, contentSize]

theorem fileOf_eq (crc : Bytes → UInt32) (version : ℕ) (m : Metadata) :
    fileOf crc version m = leBytes metadataMagic 4 ++ (leBytes version 4 ++
      (leBytes (crc (numbersOf version m ++ statesOf version m)).toNat 4 ++
        (numbersOf version m ++ statesOf version m))) := by
  simp only [fileOf, numbersOf, statesOf, List.append_assoc]

/-- A field among the numbers. -/
theorem intAt_fileOf {offset width v : ℕ} {a rest : Bytes}
    (hn : numbersOf version m = a ++ (leBytes v width ++ rest)) (ho : 12 + a.length = offset)
    (h : v < 256 ^ width) : intAt (fileOf crc version m) offset width = v := by
  have hfield := @intAt_append_leBytes (leBytes metadataMagic 4 ++ (leBytes version 4 ++
    (leBytes (crc (numbersOf version m ++ statesOf version m)).toNat 4 ++ a)))
    (rest ++ statesOf version m) v offset width (by simp; omega) h
  rw [fileOf_eq]
  simpa [hn] using hfield

/-- The header of a file. -/
theorem header_fileOf (hv : 1 ≤ version ∧ version ≤ 4) :
    intAt (fileOf crc version m) 0 4 = metadataMagic ∧ intAt (fileOf crc version m) 4 4 = version ∧
      (crc ((fileOf crc version m).drop 12)).toNat = intAt (fileOf crc version m) 8 4 := by
  have hmagic : ofLeBytes (leBytes metadataMagic 4) = metadataMagic := by decide
  have hversion : ofLeBytes (leBytes version 4) = version := ofLeBytes_leBytes (by omega)
  have hcrc := @ofLeBytes_leBytes (crc (numbersOf version m ++ statesOf version m)).toNat 4
    (crc (numbersOf version m ++ statesOf version m)).toNat_lt
  rw [fileOf_eq]
  refine ⟨by simpa [intAt] using hmagic, by simpa [intAt] using hversion, ?_⟩
  simpa [intAt] using hcrc.symm

/-- The numbers of a file. -/
theorem numbers_fileOf (h : m.Fits) :
    intAt (fileOf crc version m) 16 8 = m.firstIndex ∧
    intAt (fileOf crc version m) 24 8 = m.snapshotIndex ∧
    intAt (fileOf crc version m) 32 8 = m.snapshotTerm ∧
    (2 ≤ version → intAt (fileOf crc version m) 40 8 = m.firstSegmentId) ∧
    (3 ≤ version → intAt (fileOf crc version m) 48 8 = m.incarnation) ∧
    (4 ≤ version → intAt (fileOf crc version m) 56 8 = m.membershipIndex) := by
  refine ⟨intAt_fileOf rfl (by simp) h.firstIndex, ?_, ?_, fun h2 => ?_, fun h3 => ?_, fun h4 => ?_⟩
  · exact intAt_fileOf (a := leBytes 0 4 ++ leBytes m.firstIndex 8) (by simp only [numbersOf, List.append_assoc]; rfl)
      (by simp) h.snapshotIndex
  · exact intAt_fileOf (a := leBytes 0 4 ++ (leBytes m.firstIndex 8 ++ leBytes m.snapshotIndex 8))
      (by simp only [numbersOf, List.append_assoc]; rfl) (by simp) h.snapshotTerm
  · exact intAt_fileOf (a := leBytes 0 4 ++ (leBytes m.firstIndex 8 ++ (leBytes m.snapshotIndex 8 ++
      leBytes m.snapshotTerm 8))) (by simp only [numbersOf, if_pos h2, List.append_assoc]; rfl) (by simp)
      h.firstSegmentId
  · have h2 : 2 ≤ version := by omega
    exact intAt_fileOf (a := leBytes 0 4 ++ (leBytes m.firstIndex 8 ++ (leBytes m.snapshotIndex 8 ++
      (leBytes m.snapshotTerm 8 ++ leBytes m.firstSegmentId 8))))
      (by simp only [numbersOf, if_pos h2, if_pos h3, List.append_assoc]; rfl) (by simp) h.incarnation
  · have h2 : 2 ≤ version := by omega
    have h3 : 3 ≤ version := by omega
    exact @intAt_fileOf crc m version 56 8 _ (leBytes 0 4 ++ (leBytes m.firstIndex 8 ++
      (leBytes m.snapshotIndex 8 ++ (leBytes m.snapshotTerm 8 ++ (leBytes m.firstSegmentId 8 ++
        leBytes m.incarnation 8))))) [] (by simp only [numbersOf, if_pos h2, if_pos h3, if_pos h4, List.append_assoc, List.append_nil])
      (by simp) h.membershipIndex

/-- A file of a version decodes to what that version keeps. -/
theorem decode_fileOf (h : m.Fits) (hv : 1 ≤ version ∧ version ≤ 4) (hfirst : m.firstIndex ≠ 0) :
    decode crc (fileOf crc version m) = .ok (m.asOf version) := by
  obtain ⟨hmagic, hversion, hcrc⟩ := @header_fileOf crc m version hv
  obtain ⟨h1, h2, h3, h4, h5, h6⟩ := @numbers_fileOf crc m version h
  have hlen := length_numbersOf hv m
  have hbefore : fileOf crc version m = (leBytes metadataMagic 4 ++ (leBytes version 4 ++
      (leBytes (crc (numbersOf version m ++ statesOf version m)).toNat 4 ++ numbersOf version m))) ++
        statesOf version m := by
    rw [fileOf_eq]
    simp only [List.append_assoc]
  generalize hp : leBytes metadataMagic 4 ++ (leBytes version 4 ++
    (leBytes (crc (numbersOf version m ++ statesOf version m)).toNat 4 ++ numbersOf version m)) = pre
    at hbefore
  have hpre : pre.length = headerSize + contentSizeOf version := by
    simp [← hp, hlen, headerSize]
    omega
  have hsize : contentSizeOf version ≥ 24 ∧ contentSizeOf version ≤ 48 := by
    simp only [contentSizeOf, contentSize]
    split_ifs <;> omega
  have hhard := @readBlob_of (fileOf crc version m) pre _ _ _ hbefore hpre h.hardState
  have hconf := @readBlob_of (fileOf crc version m) (pre ++ blob m.hardState)
    (if 4 ≤ version then blob m.clusterMembership else []) m.confState
    (headerSize + contentSizeOf version + 4 + m.hardState.length)
    (by rw [hbefore, statesOf]; simp only [List.append_assoc])
    (by simp [hpre, blob]; omega) h.confState
  unfold decode
  dsimp only
  generalize hf : fileOf crc version m = file at *
  rw [hversion, h1, h2, h3]
  have htotal : file.length = headerSize + contentSizeOf version + (statesOf version m).length := by
    rw [hbefore, List.length_append, hpre]
  have hstates : (statesOf version m).length = 4 + m.hardState.length + (4 + m.confState.length) +
      (if 4 ≤ version then 4 + m.clusterMembership.length else 0) := by
    simp only [statesOf, blob, List.length_append, length_leBytes]
    split_ifs <;> simp
    omega
  refine bind_eq_ok.mpr ⟨(), ensure_of (by omega), bind_eq_ok.mpr ⟨(), ensure_of hmagic, ?_⟩⟩
  refine bind_eq_ok.mpr ⟨(), ensure_of hv, bind_eq_ok.mpr ⟨(), ensure_of ?_, ?_⟩⟩
  · split_ifs at hstates ⊢ <;> omega
  refine bind_eq_ok.mpr ⟨(), ensure_of hcrc, bind_eq_ok.mpr ⟨(), ensure_of hfirst, ?_⟩⟩
  refine bind_eq_ok.mpr ⟨_, hhard, bind_eq_ok.mpr ⟨_, hconf, ?_⟩⟩
  by_cases hnew : 4 ≤ version
  · rw [if_pos hnew] at hstates
    have hmember := @readBlob_of file (pre ++ (blob m.hardState ++ blob m.confState)) [] m.clusterMembership
      (headerSize + contentSizeOf version + 4 + m.hardState.length + 4 + m.confState.length)
      (by rw [hbefore, statesOf, if_pos hnew]; simp only [List.append_assoc, List.append_nil])
      (by simp [hpre, blob]; omega) h.clusterMembership
    rw [if_neg (by omega)]
    refine bind_eq_ok.mpr ⟨_, hmember, bind_eq_ok.mpr ⟨(), ensure_of (by omega), ?_⟩⟩
    simp only [asOf, h4 (by omega), h5 (by omega), h6 hnew, if_pos hnew]
    rfl
  · rw [if_neg hnew] at hstates
    rw [if_pos (by omega)]
    refine bind_eq_ok.mpr ⟨(), ensure_of (by omega), ?_⟩
    simp only [asOf, if_neg hnew]
    by_cases h2v : 2 ≤ version <;> by_cases h3v : 3 ≤ version <;> simp [h2v, h3v, h4, h5] <;> rfl

/-- What `encode` accepts. -/
def Small (m : Metadata) : Prop :=
  headerSize + contentSize + (4 + m.hardState.length) + (4 + m.confState.length) +
    (4 + m.clusterMembership.length) ≤ maxMetadataSize

/-- The encoder writes a file of the current version. -/
theorem encode_of (h : m.Small) : encode crc m = .ok (fileOf crc formatVersion m) := by
  simp only [Small, headerSize, contentSize, maxMetadataSize] at h
  have hfile : fileOf crc formatVersion m = leBytes metadataMagic 4 ++ (leBytes formatVersion 4 ++
      (leBytes (crc m.content).toNat 4 ++ m.content)) := by
    simp [fileOf, content, formatVersion]
  rw [hfile]
  refine bind_eq_ok.mpr ⟨(), ensure_of (by omega), bind_eq_ok.mpr ⟨(), ensure_of (by omega), ?_⟩⟩
  exact bind_eq_ok.mpr ⟨(), ensure_of (by omega), bind_eq_ok.mpr ⟨(), ensure_of h, rfl⟩⟩

/-- Where the configuration starts, and where it ends. -/
theorem decode_length {data : Bytes} (h : decode crc data = .ok m) :
    ∃ version first second, version = intAt data 4 4 ∧ 40 ≤ headerSize + contentSizeOf version ∧
      first = headerSize + contentSizeOf version + 4 + intAt data (headerSize + contentSizeOf version) 4 ∧
      second = first + 4 + intAt data first 4 ∧ second ≤ data.length ∧
      (if version < 4 then second = data.length
        else second + 4 ≤ data.length ∧ second + 4 + intAt data second 4 = data.length) := by
  obtain ⟨_, -, h⟩ := bind_eq_ok.mp h
  obtain ⟨_, -, h⟩ := bind_eq_ok.mp h
  obtain ⟨_, -, h⟩ := bind_eq_ok.mp h
  obtain ⟨_, -, h⟩ := bind_eq_ok.mp h
  obtain ⟨_, -, h⟩ := bind_eq_ok.mp h
  obtain ⟨_, -, h⟩ := bind_eq_ok.mp h
  obtain ⟨⟨hard, first⟩, hhard, h⟩ := bind_eq_ok.mp h
  obtain ⟨⟨conf, second⟩, hconf, h⟩ := bind_eq_ok.mp h
  obtain ⟨hfirst, -⟩ := readBlob_ok hhard
  obtain ⟨hsecond, hle⟩ := readBlob_ok hconf
  have hsize : 40 ≤ headerSize + contentSizeOf (intAt data 4 4) := by
    simp only [headerSize, contentSizeOf, contentSize]
    split_ifs <;> omega
  refine ⟨_, first, second, rfl, hsize, hfirst, hsecond, hle, ?_⟩
  dsimp only at h
  by_cases hold : intAt data 4 4 < 4
  · rw [if_pos hold] at h ⊢
    obtain ⟨_, hend, -⟩ := bind_eq_ok.mp h
    exact ensure_eq_ok.mp hend
  · rw [if_neg hold] at h ⊢
    obtain ⟨⟨member, last⟩, hmember, h⟩ := bind_eq_ok.mp h
    obtain ⟨_, hend, -⟩ := bind_eq_ok.mp h
    obtain ⟨hlast, hll⟩ := readBlob_ok hmember
    have hend : last = data.length := ensure_eq_ok.mp hend
    exact ⟨by omega, by omega⟩

theorem prefixFree_decode (crc : Bytes → UInt32) : PrefixFree (decode crc) := by
  intro p t a b ha hb
  obtain ⟨v, first, second, hv, h40, hfirst, hsecond, hle, hend⟩ := decode_length ha
  obtain ⟨w, first', second', hw, -, hfirst', hsecond', -, hend'⟩ := decode_length hb
  have hwv : w = v := by rw [hw, intAt_append (by omega), hv]
  subst hwv
  rw [intAt_append (by omega), ← hfirst] at hfirst'
  subst hfirst'
  rw [intAt_append (by omega), ← hsecond] at hsecond'
  subst hsecond'
  have hlen : t.length = 0 := by
    split_ifs at hend hend' with hold
    · simp at hend'
      omega
    · rw [intAt_append hend.1] at hend'
      simp at hend'
      omega
  exact List.length_eq_zero_iff.mp hlen

end Metadata

/-! ### Snapshot files -/

namespace SnapshotFile

/-- The characters `SNAP`, as a number. -/
def snapshotMagic : ℕ := 0x534E4150
/-- The version without a membership. -/
def formatVersionV1 : ℕ := 1
/-- Version of the format. -/
def formatVersion : ℕ := 2
/-- Bytes before the ids. -/
def headerSize : ℕ := 64

/-- An image comes with no membership or with one of its configuration. -/
def validateMembership (snapshot : Snapshot) : Except WalErr Unit :=
  if snapshot.membership = [] then .ok ()
  else match ClusterMembership.decode snapshot.membership with
    | .error _ => .error .metadataCorrupt
    | .ok membership => match membership.validate snapshot.metadata.confState with
      | .error _ => .error .metadataCorrupt
      | .ok _ => .ok ()

/-- What the checksum of a file covers. -/
def content (snapshot : Snapshot) : Bytes :=
  let cs := snapshot.metadata.confState
  leBytes snapshot.membership.length 4 ++ (leBytes snapshot.metadata.index 8 ++
    (leBytes snapshot.metadata.term 8 ++ (leBytes cs.voters.length 4 ++ (leBytes cs.learners.length 4 ++
      (leBytes cs.votersOutgoing.length 4 ++ (leBytes cs.learnersNext.length 4 ++
        ((if cs.autoLeave then 1 else 0) :: (leBytes 0 7 ++ (leBytes snapshot.data.length 8 ++
          ((cs.voters.flatMap fun i => leBytes i 8) ++ ((cs.learners.flatMap fun i => leBytes i 8) ++
            ((cs.votersOutgoing.flatMap fun i => leBytes i 8) ++
              ((cs.learnersNext.flatMap fun i => leBytes i 8) ++
                (snapshot.membership ++ snapshot.data))))))))))))))

section file
variable (crc : Bytes → UInt32)

/-- A file of a version. -/
def fileOf (version : ℕ) (snapshot : Snapshot) : Bytes :=
  leBytes snapshotMagic 4 ++ (leBytes version 4 ++ (leBytes (crc (content snapshot)).toNat 4 ++ content snapshot))

/-- Encode a snapshot, in the current version. -/
def encode (snapshot : Snapshot) : Except WalErr Bytes := do
  let cs := snapshot.metadata.confState
  ensure (cs.voters.length < 2 ^ 32) .metadataCorrupt
  ensure (cs.learners.length < 2 ^ 32) .metadataCorrupt
  ensure (cs.votersOutgoing.length < 2 ^ 32) .metadataCorrupt
  ensure (cs.learnersNext.length < 2 ^ 32) .metadataCorrupt
  ensure (snapshot.membership.length < 2 ^ 32) .metadataCorrupt
  -- the size of the file is a `usize`
  ensure (headerSize + cs.voters.length * 8 + cs.learners.length * 8 + cs.votersOutgoing.length * 8 +
    cs.learnersNext.length * 8 + snapshot.membership.length + snapshot.data.length < 2 ^ 64) .metadataCorrupt
  return fileOf crc formatVersion snapshot

/-- What `save` checks and writes. -/
def save (snapshot : Snapshot) : Except WalErr Bytes := do
  ensure (snapshot.metadata.index ≠ 0) .metadataCorrupt
  validateMembership snapshot
  encode crc snapshot

/-- Ids at an offset, and where they end. -/
def readIds (data : Bytes) (offset count : ℕ) : Except WalErr (List ℕ × ℕ) :=
  if count = 0 then .ok ([], offset) else do
    ensure (offset + count * 8 ≤ data.length) .metadataCorrupt
    return (idsAt data offset count, offset + count * 8)

/-- Decode a snapshot, in any version. -/
def decode (data : Bytes) : Except WalErr Snapshot := do
  ensure (headerSize ≤ data.length) .metadataCorrupt
  ensure (intAt data 0 4 = snapshotMagic) .metadataCorrupt
  let version := intAt data 4 4
  ensure (version = formatVersionV1 ∨ version = formatVersion) .metadataCorrupt
  ensure ((crc (data.drop 12)).toNat = intAt data 8 4) .metadataCorrupt
  ensure (data.getD 48 0 ≤ 1 ∧ (data.drop 49).take 7 = leBytes 0 7) .metadataCorrupt
  let membershipLen := intAt data 12 4
  ensure (version = formatVersionV1 → membershipLen = 0) .metadataCorrupt
  ensure (intAt data 16 8 ≠ 0) .metadataCorrupt
  let (voters, offset) ← readIds data headerSize (intAt data 32 4)
  let (learners, offset) ← readIds data offset (intAt data 36 4)
  let (votersOutgoing, offset) ← readIds data offset (intAt data 40 4)
  let (learnersNext, offset) ← readIds data offset (intAt data 44 4)
  ensure (offset + membershipLen ≤ data.length) .metadataCorrupt
  let payloadLen := intAt data 56 8
  ensure (offset + membershipLen + payloadLen = data.length) .metadataCorrupt
  let snapshot : Snapshot := {
    membership := (data.drop offset).take membershipLen
    data := (data.drop (offset + membershipLen)).take payloadLen
    metadata := {
      index := intAt data 16 8
      term := intAt data 24 8
      confState := ⟨voters, learners, votersOutgoing, learnersNext, data.getD 48 0 == 1⟩ } }
  validateMembership snapshot
  return snapshot

end file

/-- The numbers are 64-bit numbers, and the lists and images are short. -/
structure Fits (snapshot : Snapshot) : Prop where
  index : snapshot.metadata.index < 256 ^ 8
  term : snapshot.metadata.term < 256 ^ 8
  confState : ConfStateFits snapshot.metadata.confState
  membership : snapshot.membership.length < 2 ^ 32
  data : snapshot.data.length < 2 ^ 32

variable {crc : Bytes → UInt32} {s : Snapshot} {version : ℕ}

theorem readIds_of {data a rest : Bytes} {ids : List ℕ} {offset : ℕ}
    (hd : data = a ++ ((ids.flatMap fun i => leBytes i 8) ++ rest)) (hp : a.length = offset)
    (hids : ∀ i ∈ ids, i < 256 ^ 8) :
    readIds data offset ids.length = .ok (ids, offset + ids.length * 8) := by
  have hread := @idsAt_flatMap a rest ids offset hp hids
  have hsize : data.length = offset + ids.length * 8 + rest.length := by
    rw [hd, List.length_append, List.length_append, ClusterMembership.length_flatMap_leBytes, hp]
    omega
  unfold readIds
  split_ifs with h0
  · have hnil : ids = [] := List.length_eq_zero_iff.mp h0
    rw [hnil]
    rfl
  · rw [hd, hread, ← hd]
    exact bind_eq_ok.mpr ⟨(), ensure_of (by omega), rfl⟩

theorem readIds_ok {data : Bytes} {ids : List ℕ} {offset offset' count : ℕ}
    (h : readIds data offset count = .ok (ids, offset')) : offset' = offset + count * 8 := by
  unfold readIds at h
  split_ifs at h with h0
  · cases h
    omega
  · obtain ⟨_, -, h⟩ := bind_eq_ok.mp h
    cases h
    rfl

/-- The fields of a file before its ids. -/
theorem header_fileOf (h : Fits s) (hv : version < 3) :
    intAt (fileOf crc version s) 0 4 = snapshotMagic ∧ intAt (fileOf crc version s) 4 4 = version ∧
    (crc ((fileOf crc version s).drop 12)).toNat = intAt (fileOf crc version s) 8 4 ∧
    intAt (fileOf crc version s) 12 4 = s.membership.length ∧
    intAt (fileOf crc version s) 16 8 = s.metadata.index ∧
    intAt (fileOf crc version s) 24 8 = s.metadata.term ∧
    intAt (fileOf crc version s) 32 4 = s.metadata.confState.voters.length ∧
    intAt (fileOf crc version s) 36 4 = s.metadata.confState.learners.length ∧
    intAt (fileOf crc version s) 40 4 = s.metadata.confState.votersOutgoing.length ∧
    intAt (fileOf crc version s) 44 4 = s.metadata.confState.learnersNext.length ∧
    (fileOf crc version s).getD 48 0 = (if s.metadata.confState.autoLeave then 1 else 0) ∧
    ((fileOf crc version s).drop 49).take 7 = leBytes 0 7 ∧
    intAt (fileOf crc version s) 56 8 = s.data.length := by
  have hnum : 2 ^ 32 = 256 ^ 4 := by norm_num
  have hmagic : ofLeBytes (leBytes snapshotMagic 4) = snapshotMagic := by decide
  have hversion : ofLeBytes (leBytes version 4) = version := ofLeBytes_leBytes (by omega)
  have hcrc := @ofLeBytes_leBytes (crc (content s)).toNat 4 (crc (content s)).toNat_lt
  have hmember := @ofLeBytes_leBytes s.membership.length 4 (hnum ▸ h.membership)
  have hindex := ofLeBytes_leBytes h.index
  have hterm := ofLeBytes_leBytes h.term
  have hlen : ∀ vs ∈ [s.metadata.confState.voters, s.metadata.confState.learners,
      s.metadata.confState.votersOutgoing, s.metadata.confState.learnersNext],
      ofLeBytes (leBytes vs.length 4) = vs.length := fun vs hvs =>
    ofLeBytes_leBytes (hnum ▸ (h.confState vs hvs).1)
  have hv1 := hlen s.metadata.confState.voters (by simp)
  have hv2 := hlen s.metadata.confState.learners (by simp)
  have hv3 := hlen s.metadata.confState.votersOutgoing (by simp)
  have hv4 := hlen s.metadata.confState.learnersNext (by simp)
  have hdata := @ofLeBytes_leBytes s.data.length 8 (h.data.trans (by norm_num))
  refine ⟨by simpa [fileOf, intAt] using hmagic, by simpa [fileOf, intAt] using hversion, ?_, ?_, ?_, ?_, ?_,
    ?_, ?_, ?_, ?_, ?_, ?_⟩
  · simpa [fileOf, intAt] using hcrc.symm
  · simpa [fileOf, intAt, content] using hmember
  · simpa [fileOf, intAt, content] using hindex
  · simpa [fileOf, intAt, content] using hterm
  · simpa [fileOf, intAt, content] using hv1
  · simpa [fileOf, intAt, content] using hv2
  · simpa [fileOf, intAt, content] using hv3
  · simpa [fileOf, intAt, content] using hv4
  · rw [List.getD_eq_getElem?_getD, ← List.head?_drop]
    simp [fileOf, content]
  · simp [fileOf, content]
  · simpa [fileOf, intAt, content] using hdata

/-- A file decodes to the snapshot it was made of. -/
theorem decode_fileOf (h : Fits s) (hindex : s.metadata.index ≠ 0) (hvalid : validateMembership s = .ok ())
    (hv : version = formatVersion ∨ version = formatVersionV1 ∧ s.membership = []) :
    decode crc (fileOf crc version s) = .ok s := by
  have hversion : version = formatVersionV1 ∨ version = formatVersion := by
    rcases hv with hv | ⟨hv, -⟩
    · exact .inr hv
    · exact .inl hv
  have hlt : version < 3 := by
    simp only [formatVersionV1, formatVersion] at hversion
    omega
  have hold : version = formatVersionV1 → s.membership.length = 0 := by
    rintro rfl
    rcases hv with hv | ⟨-, hv⟩
    · cases hv
    · rw [hv]
      rfl
  obtain ⟨f0, f4, f8, f12, f16, f24, f32, f36, f40, f44, f48, f49, f56⟩ :=
    @header_fileOf crc s version h hlt
  generalize hfile : fileOf crc version s = file at *
  let cs := s.metadata.confState
  have hids : ∀ vs ∈ [cs.voters, cs.learners, cs.votersOutgoing, cs.learnersNext],
      ∀ v ∈ vs, v < 256 ^ 8 := fun vs hvs => (h.confState vs hvs).2
  let n1 := cs.voters.length * 8
  let n2 := cs.learners.length * 8
  let n3 := cs.votersOutgoing.length * 8
  let n4 := cs.learnersNext.length * 8
  let b1 := cs.voters.flatMap fun i => leBytes i 8
  let b2 := cs.learners.flatMap fun i => leBytes i 8
  let b3 := cs.votersOutgoing.flatMap fun i => leBytes i 8
  let b4 := cs.learnersNext.flatMap fun i => leBytes i 8
  -- what stands before the ids
  let numbers : Bytes := leBytes s.membership.length 4 ++ (leBytes s.metadata.index 8 ++
    (leBytes s.metadata.term 8 ++ (leBytes cs.voters.length 4 ++ (leBytes cs.learners.length 4 ++
      (leBytes cs.votersOutgoing.length 4 ++ (leBytes cs.learnersNext.length 4 ++
        ((if cs.autoLeave then 1 else 0) :: (leBytes 0 7 ++ leBytes s.data.length 8))))))))
  let header : Bytes := leBytes snapshotMagic 4 ++ (leBytes version 4 ++
    (leBytes (crc (content s)).toNat 4 ++ numbers))
  have hheader : header.length = headerSize := by
    simp [header, numbers, headerSize]
  have hsplit : file = header ++ (b1 ++ (b2 ++ (b3 ++ (b4 ++ (s.membership ++ s.data))))) := by
    rw [← hfile]
    simp [header, numbers, fileOf, content, b1, b2, b3, b4, cs]
  have hl1 : b1.length = n1 := ClusterMembership.length_flatMap_leBytes _
  have hl2 : b2.length = n2 := ClusterMembership.length_flatMap_leBytes _
  have hl3 : b3.length = n3 := ClusterMembership.length_flatMap_leBytes _
  have hl4 : b4.length = n4 := ClusterMembership.length_flatMap_leBytes _
  have hlen : file.length = headerSize + n1 + n2 + n3 + n4 + s.membership.length + s.data.length := by
    rw [hsplit]
    simp only [List.length_append]
    omega
  have h1 := @readIds_of file header (b2 ++ (b3 ++ (b4 ++ (s.membership ++ s.data)))) cs.voters headerSize
    hsplit hheader (hids _ (by simp))
  have h2 := @readIds_of file (header ++ b1) (b3 ++ (b4 ++ (s.membership ++ s.data))) cs.learners
    (headerSize + n1) (by simpa using hsplit) (by simp [hheader, hl1]) (hids _ (by simp))
  have h3 := @readIds_of file (header ++ (b1 ++ b2)) (b4 ++ (s.membership ++ s.data)) cs.votersOutgoing
    (headerSize + n1 + n2) (by simpa using hsplit) (by simp [hheader, hl1, hl2]; omega) (hids _ (by simp))
  have h4 := @readIds_of file (header ++ (b1 ++ (b2 ++ b3))) (s.membership ++ s.data) cs.learnersNext
    (headerSize + n1 + n2 + n3) (by simpa using hsplit) (by simp [hheader, hl1, hl2, hl3]; omega)
    (hids _ (by simp))
  have hmember : (file.drop (headerSize + n1 + n2 + n3 + n4)).take s.membership.length = s.membership := by
    have hsplit' : file = (header ++ (b1 ++ (b2 ++ (b3 ++ b4)))) ++ (s.membership ++ s.data) := by
      simpa using hsplit
    rw [hsplit', List.drop_left' (by simp [hheader, hl1, hl2, hl3, hl4]; omega), List.take_left]
  have hdata : (file.drop (headerSize + n1 + n2 + n3 + n4 + s.membership.length)).take s.data.length =
      s.data := by
    have hsplit' : file = (header ++ (b1 ++ (b2 ++ (b3 ++ (b4 ++ s.membership))))) ++ s.data := by
      simpa using hsplit
    rw [hsplit', List.drop_left' (by simp [hheader, hl1, hl2, hl3, hl4]; omega), List.take_length]
  have hflag : (file.getD 48 0 ≤ 1 ∧ (file.drop 49).take 7 = leBytes 0 7) := by
    refine ⟨?_, f49⟩
    rw [f48]
    split_ifs <;> decide
  have hleave : (file.getD 48 0 == 1) = cs.autoLeave := by
    rw [f48]
    cases cs.autoLeave <;> decide
  unfold decode
  dsimp only
  rw [f4, f12, f16, f24, f32, f36, f40, f44, f56]
  refine bind_eq_ok.mpr ⟨(), ensure_of (by omega), bind_eq_ok.mpr ⟨(), ensure_of f0, ?_⟩⟩
  refine bind_eq_ok.mpr ⟨(), ensure_of hversion, bind_eq_ok.mpr ⟨(), ensure_of (f8 ▸ f8), ?_⟩⟩
  refine bind_eq_ok.mpr ⟨(), ensure_of hflag, bind_eq_ok.mpr ⟨(), ensure_of hold, ?_⟩⟩
  refine bind_eq_ok.mpr ⟨(), ensure_of hindex, ?_⟩
  refine bind_eq_ok.mpr ⟨_, h1, bind_eq_ok.mpr ⟨_, h2, bind_eq_ok.mpr ⟨_, h3, bind_eq_ok.mpr ⟨_, h4, ?_⟩⟩⟩⟩
  refine bind_eq_ok.mpr ⟨(), ensure_of (by omega), bind_eq_ok.mpr ⟨(), ensure_of (by omega), ?_⟩⟩
  dsimp only
  rw [hleave, hmember, hdata]
  exact bind_eq_ok.mpr ⟨(), hvalid, rfl⟩

theorem encode_of (h : Fits s) : encode crc s = .ok (fileOf crc formatVersion s) := by
  have hv := (h.confState s.metadata.confState.voters (by simp)).1
  have hl := (h.confState s.metadata.confState.learners (by simp)).1
  have ho := (h.confState s.metadata.confState.votersOutgoing (by simp)).1
  have hn := (h.confState s.metadata.confState.learnersNext (by simp)).1
  have hm := h.membership
  have hd := h.data
  refine bind_eq_ok.mpr ⟨(), ensure_of hv, bind_eq_ok.mpr ⟨(), ensure_of hl, ?_⟩⟩
  refine bind_eq_ok.mpr ⟨(), ensure_of ho, bind_eq_ok.mpr ⟨(), ensure_of hn, ?_⟩⟩
  refine bind_eq_ok.mpr ⟨(), ensure_of hm, bind_eq_ok.mpr ⟨(), ensure_of ?_, rfl⟩⟩
  simp only [headerSize]
  omega

/-- The length of an accepted file is that of the parts announced in its header. -/
theorem decode_length {data : Bytes} (h : decode crc data = .ok s) :
    headerSize ≤ data.length ∧ headerSize + intAt data 32 4 * 8 + intAt data 36 4 * 8 + intAt data 40 4 * 8 +
      intAt data 44 4 * 8 + intAt data 12 4 + intAt data 56 8 = data.length := by
  obtain ⟨_, hle, h⟩ := bind_eq_ok.mp h
  obtain ⟨_, -, h⟩ := bind_eq_ok.mp h
  obtain ⟨_, -, h⟩ := bind_eq_ok.mp h
  obtain ⟨_, -, h⟩ := bind_eq_ok.mp h
  obtain ⟨_, -, h⟩ := bind_eq_ok.mp h
  obtain ⟨_, -, h⟩ := bind_eq_ok.mp h
  obtain ⟨_, -, h⟩ := bind_eq_ok.mp h
  obtain ⟨⟨v1, o1⟩, h1, h⟩ := bind_eq_ok.mp h
  obtain ⟨⟨v2, o2⟩, h2, h⟩ := bind_eq_ok.mp h
  obtain ⟨⟨v3, o3⟩, h3, h⟩ := bind_eq_ok.mp h
  obtain ⟨⟨v4, o4⟩, h4, h⟩ := bind_eq_ok.mp h
  obtain ⟨_, -, h⟩ := bind_eq_ok.mp h
  obtain ⟨_, hend, -⟩ := bind_eq_ok.mp h
  have e1 := readIds_ok h1
  have e2 := readIds_ok h2
  have e3 := readIds_ok h3
  have e4 := readIds_ok h4
  have hend : o4 + intAt data 12 4 + intAt data 56 8 = data.length := ensure_eq_ok.mp hend
  exact ⟨ensure_eq_ok.mp hle, by omega⟩

theorem prefixFree_decode (crc : Bytes → UInt32) : PrefixFree (decode crc) := by
  intro p t a b ha hb
  obtain ⟨hle, ha⟩ := decode_length ha
  obtain ⟨-, hb⟩ := decode_length hb
  simp only [headerSize] at hle
  rw [intAt_append (by omega), intAt_append (by omega), intAt_append (by omega), intAt_append (by omega),
    intAt_append (by omega), intAt_append (by omega), List.length_append] at hb
  exact List.length_eq_zero_iff.mp (by omega)

end SnapshotFile

/-! ### Intents of migrations -/

theorem readField_ok {width n : ℕ} {bs rest : Bytes}
    (h : Migration.readField width bs = .ok (n, rest)) : bs = leBytes n width ++ rest ∧ n < 256 ^ width := by
  unfold Migration.readField at h
  split at h
  · rename_i r hr
    cases h
    exact MessageCodec.readInt_ok hr
  · cases h

/-- The length of an accepted intent is announced by the number before the address. -/
theorem length_intent {crc32c : Bytes → UInt32} {maxAddressBytes : ℕ} {bytes : Bytes}
    {i : Migration.MigrationIntent} (h : Migration.decode crc32c bytes maxAddressBytes = .ok i) :
    52 ≤ bytes.length ∧ bytes.length = 52 + intAt bytes 44 4 := by
  obtain ⟨_, hle, h⟩ := bind_eq_ok.mp h
  obtain ⟨_, -, h⟩ := bind_eq_ok.mp h
  obtain ⟨⟨v, b1⟩, h1, h⟩ := bind_eq_ok.mp h
  obtain ⟨_, -, h⟩ := bind_eq_ok.mp h
  obtain ⟨⟨c, b2⟩, -, h⟩ := bind_eq_ok.mp h
  obtain ⟨_, -, h⟩ := bind_eq_ok.mp h
  obtain ⟨⟨g, b3⟩, h3, h⟩ := bind_eq_ok.mp h
  obtain ⟨⟨src, b4⟩, h4, h⟩ := bind_eq_ok.mp h
  obtain ⟨⟨tgt, b5⟩, h5, h⟩ := bind_eq_ok.mp h
  obtain ⟨⟨ticks, b6⟩, h6, h⟩ := bind_eq_ok.mp h
  obtain ⟨⟨st, b7⟩, h7, h⟩ := bind_eq_ok.mp h
  obtain ⟨⟨n, b8⟩, h8, h⟩ := bind_eq_ok.mp h
  obtain ⟨_, -, h⟩ := bind_eq_ok.mp h
  obtain ⟨_, hend, -⟩ := bind_eq_ok.mp h
  have hend : b8.length = n + Migration.checksumSize := ensure_eq_ok.mp hend
  have hle : Migration.fixedSize + Migration.checksumSize ≤ bytes.length := ensure_eq_ok.mp hle
  simp only [Migration.fixedSize, Migration.checksumSize] at hle hend
  obtain ⟨rfl, -⟩ := readField_ok h3
  obtain ⟨rfl, -⟩ := readField_ok h4
  obtain ⟨rfl, -⟩ := readField_ok h5
  obtain ⟨rfl, -⟩ := readField_ok h6
  obtain ⟨rfl, -⟩ := readField_ok h7
  obtain ⟨rfl, hn⟩ := readField_ok h8
  obtain ⟨h1, -⟩ := readField_ok h1
  have hlen := congrArg List.length h1
  simp only [List.length_drop, List.length_append, length_leBytes] at hlen
  have hcount : intAt bytes 44 4 = n := by
    have hdrop : bytes.drop 44 = leBytes n 4 ++ b8 := by
      rw [show bytes.drop 44 = (bytes.drop 4).drop 40 by rw [List.drop_drop], h1]
      simp
    rw [intAt, hdrop, List.take_left' (length_leBytes n 4), ofLeBytes_leBytes hn]
  exact ⟨by omega, by omega⟩

theorem prefixFree_intent (crc32c : Bytes → UInt32) (maxAddressBytes : ℕ) :
    PrefixFree fun bytes => Migration.decode crc32c bytes maxAddressBytes := by
  intro p t a b ha hb
  obtain ⟨hle, ha⟩ := length_intent ha
  obtain ⟨-, hb⟩ := length_intent hb
  rw [intAt_append (by omega), List.length_append] at hb
  exact List.length_eq_zero_iff.mp (by omega)

/-! ### All formats -/

/-- The formats on disk round-trip.  Metadata is always written in the current version, so that the
version of what was written is not read back; an address is read back up to the bound of the reader. -/
theorem formats_round_trip (crc : Bytes → UInt32) :
    -- entries
    (∀ e, EntryFits e → ∃ bytes, serializeEntry e = .ok bytes ∧ deserializeEntry bytes = .ok e) ∧
    (∀ bytes e, deserializeEntry bytes = .ok e → serializeEntry e = .ok bytes) ∧
    PrefixFree deserializeEntry ∧
    -- configurations
    (∀ cs, ConfStateFits cs →
      ∃ bytes, serializeConfState cs = .ok bytes ∧ deserializeConfState bytes = .ok cs) ∧
    PrefixFree deserializeConfState ∧
    -- metadata
    (∀ m : Metadata, m.Fits → m.Small → 1 ≤ m.firstIndex →
      ∃ bytes, m.encode crc = .ok bytes ∧
        Metadata.decode crc bytes = .ok { m with version := Metadata.formatVersion }) ∧
    (∀ (m : Metadata) (version : ℕ), m.Fits → 1 ≤ m.firstIndex → 1 ≤ version ∧ version ≤ 3 →
      Metadata.decode crc (Metadata.fileOf crc version m) = .ok (m.asOf version)) ∧
    PrefixFree (Metadata.decode crc) ∧
    -- snapshots
    (∀ s : Snapshot, SnapshotFile.Fits s → 1 ≤ s.metadata.index → (s.membership = [] ∨
        ∃ cm, ClusterMembership.decode s.membership = .ok cm ∧ cm.validate s.metadata.confState = .ok ()) →
      ∃ bytes, SnapshotFile.encode crc s = .ok bytes ∧ SnapshotFile.save crc s = .ok bytes ∧
        SnapshotFile.decode crc bytes = .ok s) ∧
    (∀ s : Snapshot, SnapshotFile.Fits s → 1 ≤ s.metadata.index → s.membership = [] →
      SnapshotFile.decode crc (SnapshotFile.fileOf crc SnapshotFile.formatVersionV1 s) = .ok s) ∧
    PrefixFree (SnapshotFile.decode crc) ∧
    -- intents
    (∀ (i : Migration.MigrationIntent) (bytes : Bytes) (maxAddressBytes : ℕ), i.Bounded →
      Migration.encode crc i = .ok bytes → i.targetAddress.length ≤ maxAddressBytes →
      Migration.decode crc bytes maxAddressBytes = .ok i) ∧
    (∀ maxAddressBytes, PrefixFree fun bytes => Migration.decode crc bytes maxAddressBytes) := by
  refine ⟨fun e => deserialize_serializeEntry, fun bytes e => serialize_deserializeEntry,
    prefixFree_deserializeEntry, fun cs => deserialize_serializeConfState, prefixFree_deserializeConfState,
    ?_, ?_, Metadata.prefixFree_decode crc, ?_, ?_, SnapshotFile.prefixFree_decode crc, ?_,
    prefixFree_intent crc⟩
  · intro m h hsmall hfirst
    refine ⟨_, Metadata.encode_of hsmall, ?_⟩
    exact Metadata.decode_fileOf h (by decide) (by omega)
  · intro m version h hfirst hv
    exact Metadata.decode_fileOf h (by omega) (by omega)
  · intro s h hindex hmember
    have hvalid : SnapshotFile.validateMembership s = .ok () := by
      unfold SnapshotFile.validateMembership
      split_ifs with hnil
      · rfl
      · obtain ⟨cm, hdec, hval⟩ := hmember.resolve_left hnil
        rw [hdec]
        dsimp only
        rw [hval]
    refine ⟨_, SnapshotFile.encode_of h, ?_, SnapshotFile.decode_fileOf h (by omega) hvalid (.inl rfl)⟩
    exact bind_eq_ok.mpr ⟨(), ensure_of (by omega), bind_eq_ok.mpr ⟨(), hvalid, SnapshotFile.encode_of h⟩⟩
  · intro s h hindex hnil
    have hvalid : SnapshotFile.validateMembership s = .ok () := by
      unfold SnapshotFile.validateMembership
      rw [if_pos hnil]
    exact SnapshotFile.decode_fileOf h (by omega) hvalid (.inr ⟨rfl, hnil⟩)
  · intro i bytes maxAddressBytes hb henc hmax
    exact Migration.decode_encode henc hb hmax

/-- Metadata of an older version comes back with the current one; a reader with a smaller bound
refuses an intent. -/
theorem formats_drift :
    (∃ (crc : Bytes → UInt32) (m : Metadata) (bytes : Bytes), m.Fits ∧ m.Small ∧ 1 ≤ m.firstIndex ∧
      m.encode crc = .ok bytes ∧ Metadata.decode crc bytes ≠ .ok m) ∧
    ∃ (crc : Bytes → UInt32) (i : Migration.MigrationIntent) (bytes : Bytes) (maxAddressBytes : ℕ),
      i.Bounded ∧ Migration.encode crc i = .ok bytes ∧
        Migration.decode crc bytes maxAddressBytes = .error .migrationIntentCorrupt := by
  constructor
  · let m : Metadata := { version := 3 }
    have hfits : m.Fits := by constructor <;> decide
    have hsmall : m.Small := by unfold Metadata.Small; decide
    refine ⟨fun _ => 0, m, _, hfits, hsmall, by decide, Metadata.encode_of hsmall, ?_⟩
    rw [Metadata.decode_fileOf hfits (by decide) (by decide)]
    decide
  · let i : Migration.MigrationIntent := ⟨1, 2, 3, [97, 98], 10, 1⟩
    refine ⟨fun _ => 0, i, _, 1, by constructor <;> decide, rfl, by decide +kernel⟩

end DiskFormats

end Raftz
