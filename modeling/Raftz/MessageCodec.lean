import Raftz.MembershipCodec

/-! # Encoding of messages

`codec.zig`: a message as bytes, alone, behind the header of a frame, and in an
envelope that names a group.  All integers are little-endian and of fixed width;
byte strings and lists carry a 32-bit length.

The decoder accepts any non-zero byte for `true`.  `encodeWith` writes a message
with the three boolean bytes given by `Flags`, and the decoder accepts exactly
the byte strings it writes with flags that mean those of the message
(`decodeMessageAt_encodeWith`, `decodeMessageAt_ok`); `encodeMessage` is the case
of zeros and ones. -/

open Base

namespace Raftz

namespace MessageType

/-- Numeric value on the wire. -/
def toByte : MessageType → UInt8
  | .hup => 0
  | .beat => 1
  | .propose => 2
  | .append => 3
  | .appendResponse => 4
  | .requestVote => 5
  | .requestVoteResponse => 6
  | .snapshot => 7
  | .heartbeat => 8
  | .heartbeatResponse => 9
  | .unreachablePeer => 10
  | .snapStatus => 11
  | .checkQuorum => 12
  | .transferLeader => 13
  | .timeoutNow => 14
  | .readIndex => 15
  | .readIndexResp => 16
  | .requestPreVote => 17
  | .requestPreVoteResponse => 18

/-- All kinds. -/
def all : List MessageType :=
  [.hup, .beat, .propose, .append, .appendResponse, .requestVote, .requestVoteResponse, .snapshot,
    .heartbeat, .heartbeatResponse, .unreachablePeer, .snapStatus, .checkQuorum, .transferLeader,
    .timeoutNow, .readIndex, .readIndexResp, .requestPreVote, .requestPreVoteResponse]

end MessageType

namespace EntryType

/-- Numeric value on the wire. -/
def toByte : EntryType → UInt8
  | .normal => 0
  | .confChange => 1
  | .confChangeV2 => 2

/-- All kinds. -/
def all : List EntryType := [.normal, .confChange, .confChangeV2]

end EntryType

namespace MessageCodec

/-- Why a message is not encoded or not decoded. -/
inductive CodecError
  | invalidMagic
  | invalidVersion
  | invalidMessageType
  | invalidEntryType
  | messageTypeMismatch
  | trailingData
  | truncatedMessage
  | messageTooLarge
  | invalidGroupId
  deriving DecidableEq, Repr

/-- The characters `RAPF`, as a number. -/
def codecMagic : ℕ := 0x52415046
/-- Version of the frame. -/
def codecVersion : ℕ := 1
/-- The characters `RAME`, as a number. -/
def envelopeMagic : ℕ := 0x52414d45
/-- Version of the envelope. -/
def envelopeVersion : ℕ := 1
/-- Bytes before the payload of an envelope. -/
def envelopeHeaderSize : ℕ := 4 + 4 + 8 + 4
/-- Bytes of an entry without data and context. -/
def encodedEntryMinSize : ℕ := 1 + 8 + 8 + 4 + 4 + 4

/-! ### Encoder -/

/-- A length that fits into 32 bits. -/
def encodedLength (len : ℕ) : Except CodecError ℕ :=
  if len < 2 ^ 32 then .ok len else .error .messageTooLarge

/-- A byte string behind its length. -/
def writeBytes (bs : Bytes) : Except CodecError Bytes := do
  let len ← encodedLength bs.length
  return leBytes len 4 ++ bs

/-- Numbers behind their count. -/
def writeU64Slice (vs : List ℕ) : Except CodecError Bytes := do
  let len ← encodedLength vs.length
  return leBytes len 4 ++ vs.flatMap fun v => leBytes v 8

/-- The 64 bits of a signed number. -/
def ofI64 (i : ℤ) : ℕ := (i % 2 ^ 64).toNat

/-- A boolean as a byte. -/
def boolByte (b : Bool) : UInt8 := if b then 1 else 0

/-- The boolean bytes of a message. -/
structure Flags where
  reject : UInt8
  hasSnapshot : UInt8
  autoLeave : UInt8

/-- A configuration, its flag given as a byte. -/
def writeConfState (autoLeave : UInt8) (cs : ConfState) : Except CodecError Bytes := do
  let voters ← writeU64Slice cs.voters
  let learners ← writeU64Slice cs.learners
  let votersOutgoing ← writeU64Slice cs.votersOutgoing
  let learnersNext ← writeU64Slice cs.learnersNext
  return voters ++ (learners ++ (votersOutgoing ++ (learnersNext ++ [autoLeave])))

/-- One entry. -/
def encodeEntry (e : Entry) : Except CodecError Bytes := do
  let data ← writeBytes e.data
  let context ← writeBytes e.context
  return e.entryType.toByte :: (leBytes e.term 8 ++ (leBytes e.index 8 ++ (leBytes e.checksum 4 ++
    (data ++ context))))

/-- The entries, one after another. -/
def encodeEntries : List Entry → Except CodecError Bytes
  | [] => .ok []
  | e :: es => do
      let first ← encodeEntry e
      let rest ← encodeEntries es
      return first ++ rest

/-- The snapshot behind a byte that tells whether there is one. -/
def encodeSnapshot (f : Flags) : Option Snapshot → Except CodecError Bytes
  | none => .ok [f.hasSnapshot]
  | some snap => do
      let confState ← writeConfState f.autoLeave snap.metadata.confState
      let membership ← writeBytes snap.membership
      let data ← writeBytes snap.data
      return f.hasSnapshot :: (leBytes snap.metadata.index 8 ++ (leBytes snap.metadata.term 8 ++
        (confState ++ (membership ++ data))))

/-- Kind and routing, up to the flag of a rejection. -/
def encodeHead (m : Message) : Bytes :=
  m.msgType.toByte :: (leBytes m.dest 8 ++ (leBytes m.sender 8 ++ (leBytes m.term 8 ++
    (leBytes m.logTerm 8 ++ (leBytes m.index 8 ++ (leBytes m.commit 8 ++
      (leBytes m.commitTerm 8 ++ leBytes m.requestSnapshot 8)))))))

/-- A message with the given boolean bytes. -/
def encodeWith (f : Flags) (m : Message) : Except CodecError Bytes := do
  let context ← writeBytes m.context
  let count ← encodedLength m.entries.length
  let entries ← encodeEntries m.entries
  let snapshot ← encodeSnapshot f m.snapshot
  return encodeHead m ++ f.reject :: (leBytes m.rejectHint 8 ++ (leBytes (ofI64 m.priority) 8 ++
    (context ++ (leBytes count 4 ++ (entries ++ snapshot)))))

/-- Zeros and ones. -/
def Flags.of (m : Message) : Flags where
  reject := boolByte m.reject
  hasSnapshot := boolByte m.snapshot.isSome
  autoLeave := boolByte (m.snapshot.any fun s => s.metadata.confState.autoLeave)

/-- Encode a message. -/
def encodeMessage (m : Message) : Except CodecError Bytes := encodeWith (Flags.of m) m

/-- Encode a message behind the header of a frame. -/
def encodeFramed (m : Message) (fromNode toNode : ℕ) : Except CodecError Bytes := do
  let payload ← encodeMessage m
  let len ← encodedLength payload.length
  return leBytes codecMagic 4 ++ (leBytes codecVersion 4 ++ (leBytes fromNode 8 ++
    (leBytes toNode 8 ++ (leBytes 0 8 ++ (m.msgType.toByte :: (leBytes len 4 ++ payload))))))

/-- Encode a message for a group. -/
def encodeEnvelope (groupId : ℕ) (m : Message) : Except CodecError Bytes := do
  ensure (groupId ≠ 0) .invalidGroupId
  let payload ← encodeMessage m
  let len ← encodedLength payload.length
  return leBytes envelopeMagic 4 ++ (leBytes envelopeVersion 4 ++ (leBytes groupId 8 ++
    (leBytes len 4 ++ payload)))

/-! ### Decoder

A reader takes the bytes that are left and returns a value and the bytes left after it. -/

/-- The next bytes. -/
def take (len : ℕ) (bs : Bytes) : Except CodecError (Bytes × Bytes) :=
  if bs.length < len then .error .truncatedMessage else .ok (bs.take len, bs.drop len)

/-- The next byte. -/
def readByte : Bytes → Except CodecError (UInt8 × Bytes)
  | [] => .error .truncatedMessage
  | b :: bs => .ok (b, bs)

/-- The next number of the given width. -/
def readInt (width : ℕ) (bs : Bytes) : Except CodecError (ℕ × Bytes) := do
  let (bytes, bs) ← take width bs
  return (ofLeBytes bytes, bs)

/-- The signed number with these 64 bits. -/
def toI64 (n : ℕ) : ℤ := if n < 2 ^ 63 then n else n - 2 ^ 64

/-- A byte string behind its length. -/
def readBytes (bs : Bytes) : Except CodecError (Bytes × Bytes) := do
  let (len, bs) ← readInt 4 bs
  take len bs

/-- The first `n` numbers in the bytes. -/
def u64s : ℕ → Bytes → List ℕ
  | 0, _ => []
  | n + 1, bs => ofLeBytes (bs.take 8) :: u64s n (bs.drop 8)

/-- Numbers behind their count. -/
def readU64Slice (bs : Bytes) : Except CodecError (List ℕ × Bytes) := do
  let (count, bs) ← readInt 4 bs
  let (bytes, bs) ← take (count * 8) bs
  return (u64s count bytes, bs)

/-- A configuration. -/
def readConfState (bs : Bytes) : Except CodecError (ConfState × Bytes) := do
  let (voters, bs) ← readU64Slice bs
  let (learners, bs) ← readU64Slice bs
  let (votersOutgoing, bs) ← readU64Slice bs
  let (learnersNext, bs) ← readU64Slice bs
  let (autoLeave, bs) ← readByte bs
  return (⟨voters, learners, votersOutgoing, learnersNext, autoLeave != 0⟩, bs)

/-- The member of the list with this numeric value. -/
def checkedEnum {α : Type} (all : List α) (toByte : α → UInt8) (b : UInt8) (e : CodecError) :
    Except CodecError α :=
  match all.find? (fun a => toByte a == b) with
  | some a => .ok a
  | none => .error e

/-- One entry. -/
def decodeEntry (bs : Bytes) : Except CodecError (Entry × Bytes) := do
  let (kind, bs) ← readByte bs
  let entryType ← checkedEnum EntryType.all EntryType.toByte kind .invalidEntryType
  let (term, bs) ← readInt 8 bs
  let (index, bs) ← readInt 8 bs
  let (checksum, bs) ← readInt 4 bs
  let (data, bs) ← readBytes bs
  let (context, bs) ← readBytes bs
  return (⟨entryType, term, index, data, context, checksum⟩, bs)

/-- A number of entries. -/
def decodeEntries : ℕ → Bytes → Except CodecError (List Entry × Bytes)
  | 0, bs => .ok ([], bs)
  | n + 1, bs => do
      let (e, bs) ← decodeEntry bs
      let (es, bs) ← decodeEntries n bs
      return (e :: es, bs)

/-- The snapshot, if there is one. -/
def decodeSnapshot (bs : Bytes) : Except CodecError (Option Snapshot × Bytes) := do
  let (hasSnapshot, bs) ← readByte bs
  if hasSnapshot = 0 then return (none, bs)
  else do
    let (index, bs) ← readInt 8 bs
    let (term, bs) ← readInt 8 bs
    let (confState, bs) ← readConfState bs
    let (membership, bs) ← readBytes bs
    let (data, bs) ← readBytes bs
    return (some ⟨membership, data, ⟨index, term, confState⟩⟩, bs)

/-- A message, and what follows it. -/
def decodeMessageAt (bs : Bytes) : Except CodecError (Message × Bytes) := do
  let (kind, bs) ← readByte bs
  let msgType ← checkedEnum MessageType.all MessageType.toByte kind .invalidMessageType
  let (dest, bs) ← readInt 8 bs
  let (sender, bs) ← readInt 8 bs
  let (term, bs) ← readInt 8 bs
  let (logTerm, bs) ← readInt 8 bs
  let (index, bs) ← readInt 8 bs
  let (commit, bs) ← readInt 8 bs
  let (commitTerm, bs) ← readInt 8 bs
  let (requestSnapshot, bs) ← readInt 8 bs
  let (reject, bs) ← readByte bs
  let (rejectHint, bs) ← readInt 8 bs
  let (priority, bs) ← readInt 8 bs
  let (context, bs) ← readBytes bs
  let (numEntries, bs) ← readInt 4 bs
  -- every entry has a minimal size, and the snapshot flag follows them
  ensure (bs.length ≠ 0 ∧ numEntries ≤ (bs.length - 1) / encodedEntryMinSize) .truncatedMessage
  let (entries, bs) ← decodeEntries numEntries bs
  let (snapshot, bs) ← decodeSnapshot bs
  return ({
    msgType := msgType, dest := dest, sender := sender, term := term, logTerm := logTerm
    index := index, entries := entries, commit := commit, commitTerm := commitTerm
    snapshot := snapshot, requestSnapshot := requestSnapshot, reject := reject != 0
    rejectHint := rejectHint, context := context, priority := toI64 priority }, bs)

/-- Decode a message; nothing may follow it. -/
def decodeMessage (bs : Bytes) : Except CodecError Message := do
  let (m, rest) ← decodeMessageAt bs
  ensure (rest = []) .trailingData
  return m

/-- Decode an envelope; nothing may follow it. -/
def decodeEnvelope (bs : Bytes) : Except CodecError (ℕ × Message) := do
  ensure (envelopeHeaderSize ≤ bs.length) .truncatedMessage
  let (magic, bs) ← readInt 4 bs
  ensure (magic = envelopeMagic) .invalidMagic
  let (version, bs) ← readInt 4 bs
  ensure (version = envelopeVersion) .invalidVersion
  let (groupId, bs) ← readInt 8 bs
  ensure (groupId ≠ 0) .invalidGroupId
  let (len, bs) ← readInt 4 bs
  ensure (bs.length ≤ len) .trailingData
  ensure (len ≤ bs.length) .truncatedMessage
  let m ← decodeMessage bs
  return (groupId, m)

/-- Decode a framed message and tell how many bytes it takes. -/
def decodeFramed (data : Bytes) : Except CodecError (Message × ℕ) := do
  let (magic, bs) ← readInt 4 data
  ensure (magic = codecMagic) .invalidMagic
  let (version, bs) ← readInt 4 bs
  ensure (version = codecVersion) .invalidVersion
  let (_, bs) ← readInt 8 bs
  let (_, bs) ← readInt 8 bs
  let (_, bs) ← readInt 8 bs
  let (kind, bs) ← readByte bs
  let headerType ← checkedEnum MessageType.all MessageType.toByte kind .invalidMessageType
  let (len, bs) ← readInt 4 bs
  let (payload, bs) ← take len bs
  let m ← decodeMessage payload
  ensure (m.msgType = headerType) .messageTypeMismatch
  return (m, data.length - bs.length)

/-! ### Readers undo writers -/

section readers

variable {rest : Bytes}

theorem take_append {bs : Bytes} {n : ℕ} (h : bs.length = n) : take n (bs ++ rest) = .ok (bs, rest) := by
  unfold take
  rw [if_neg (by simp [h]), List.take_left' h, List.drop_left' h]

theorem take_ok {bs out : Bytes} {n : ℕ} (h : take n bs = .ok (out, rest)) :
    bs = out ++ rest ∧ out.length = n := by
  unfold take at h
  split at h
  · cases h
  · rename_i hlen
    cases h
    refine ⟨(List.take_append_drop n bs).symm, ?_⟩
    rw [List.length_take]
    omega

theorem readByte_ok {bs : Bytes} {b : UInt8} (h : readByte bs = .ok (b, rest)) : bs = b :: rest := by
  cases bs with
  | nil => cases h
  | cons b' bs =>
      cases h
      rfl

theorem readInt_leBytes {n width : ℕ} (h : n < 256 ^ width) :
    readInt width (leBytes n width ++ rest) = .ok (n, rest) := by
  unfold readInt
  rw [take_append (length_leBytes n width)]
  show Except.ok (ofLeBytes (leBytes n width), rest) = _
  rw [ofLeBytes_leBytes h]

theorem readInt_ok {bs : Bytes} {n width : ℕ} (h : readInt width bs = .ok (n, rest)) :
    bs = leBytes n width ++ rest ∧ n < 256 ^ width := by
  unfold readInt at h
  obtain ⟨⟨bytes, bs'⟩, htake, h⟩ := bind_eq_ok.mp h
  cases h
  obtain ⟨rfl, hlen⟩ := take_ok htake
  refine ⟨?_, ?_⟩
  · rw [← hlen, leBytes_ofLeBytes]
  · rw [← hlen]
    exact ofLeBytes_lt bytes

theorem encodedLength_eq {n len : ℕ} (h : encodedLength n = .ok len) : len = n ∧ n < 256 ^ 4 := by
  unfold encodedLength at h
  split at h
  · rename_i hn
    cases h
    exact ⟨rfl, hn.trans_eq (by norm_num)⟩
  · cases h

theorem encodedLength_of {n : ℕ} (h : n < 2 ^ 32) : encodedLength n = .ok n := if_pos h

theorem encodedLength_of_lt {n : ℕ} (h : n < 256 ^ 4) : encodedLength n = .ok n :=
  encodedLength_of (h.trans_eq (by norm_num))

theorem readBytes_writeBytes {bs out : Bytes} (h : writeBytes bs = .ok out) :
    readBytes (out ++ rest) = .ok (bs, rest) := by
  unfold writeBytes at h
  obtain ⟨len, hlen, h⟩ := bind_eq_ok.mp h
  obtain ⟨rfl, hlt⟩ := encodedLength_eq hlen
  cases h
  unfold readBytes
  rw [List.append_assoc, readInt_leBytes hlt]
  exact take_append rfl

theorem readBytes_ok {bs b : Bytes} (h : readBytes bs = .ok (b, rest)) :
    ∃ out, writeBytes b = .ok out ∧ bs = out ++ rest := by
  unfold readBytes at h
  obtain ⟨⟨len, bs'⟩, hint, htake⟩ := bind_eq_ok.mp h
  obtain ⟨rfl, rfl⟩ := take_ok htake
  obtain ⟨rfl, hlt⟩ := readInt_ok hint
  refine ⟨_, bind_eq_ok.mpr ⟨_, encodedLength_of_lt hlt, rfl⟩, ?_⟩
  rw [List.append_assoc]

theorem length_writeBytes {bs out : Bytes} (h : writeBytes bs = .ok out) :
    out.length = 4 + bs.length := by
  unfold writeBytes at h
  obtain ⟨len, -, h⟩ := bind_eq_ok.mp h
  cases h
  simp

theorem u64s_flatMap {vs : List ℕ} (hvs : ∀ v ∈ vs, v < 2 ^ 64) :
    u64s vs.length (vs.flatMap fun v => leBytes v 8) = vs := by
  induction vs with
  | nil => rfl
  | cons v vs ih =>
      have hv : v < 256 ^ 8 := (hvs v List.mem_cons_self).trans_eq (by norm_num)
      rw [List.flatMap_cons, List.length_cons, u64s, List.take_left' (length_leBytes v 8),
        List.drop_left' (length_leBytes v 8), ofLeBytes_leBytes hv,
        ih fun u hu => hvs u (List.mem_cons_of_mem _ hu)]

theorem u64s_ok {n : ℕ} {bs : Bytes} (h : bs.length = n * 8) :
    ((u64s n bs).flatMap fun v => leBytes v 8) = bs ∧ (u64s n bs).length = n ∧
      ∀ v ∈ u64s n bs, v < 2 ^ 64 := by
  induction n generalizing bs with
  | zero =>
      have hnil : bs = [] := List.length_eq_zero_iff.mp (by omega)
      subst hnil
      exact ⟨rfl, rfl, by simp [u64s]⟩
  | succ n ih =>
      obtain ⟨h1, h2, h3⟩ := @ih (bs.drop 8) (by rw [List.length_drop]; omega)
      have hlen : (bs.take 8).length = 8 := by
        rw [List.length_take]
        omega
      refine ⟨?_, ?_, ?_⟩
      · have hfirst := leBytes_ofLeBytes (bs.take 8)
        rw [hlen] at hfirst
        rw [u64s, List.flatMap_cons, h1, hfirst, List.take_append_drop]
      · rw [u64s, List.length_cons, h2]
      · intro v hv
        rcases List.mem_cons.mp hv with rfl | hv
        · have := ofLeBytes_lt (bs.take 8)
          rw [hlen] at this
          exact this.trans_eq (by norm_num)
        · exact h3 v hv

theorem readU64Slice_write {vs : List ℕ} {out : Bytes} (h : writeU64Slice vs = .ok out)
    (hvs : ∀ v ∈ vs, v < 2 ^ 64) : readU64Slice (out ++ rest) = .ok (vs, rest) := by
  unfold writeU64Slice at h
  obtain ⟨len, hlen, h⟩ := bind_eq_ok.mp h
  obtain ⟨rfl, hlt⟩ := encodedLength_eq hlen
  cases h
  unfold readU64Slice
  rw [List.append_assoc]
  refine bind_eq_ok.mpr ⟨_, readInt_leBytes hlt, ?_⟩
  refine bind_eq_ok.mpr ⟨_, take_append (ClusterMembership.length_flatMap_leBytes vs), ?_⟩
  show Except.ok (u64s vs.length _, rest) = _
  rw [u64s_flatMap hvs]

theorem readU64Slice_ok {bs : Bytes} {vs : List ℕ} (h : readU64Slice bs = .ok (vs, rest)) :
    ∃ out, writeU64Slice vs = .ok out ∧ bs = out ++ rest ∧ ∀ v ∈ vs, v < 2 ^ 64 := by
  unfold readU64Slice at h
  obtain ⟨⟨count, bs'⟩, hint, h⟩ := bind_eq_ok.mp h
  obtain ⟨⟨bytes, bs''⟩, htake, h⟩ := bind_eq_ok.mp h
  cases h
  obtain ⟨rfl, hlen⟩ := take_ok htake
  obtain ⟨rfl, hlt⟩ := readInt_ok hint
  obtain ⟨h1, h2, h3⟩ := u64s_ok hlen
  refine ⟨_, bind_eq_ok.mpr ⟨count, ?_, rfl⟩, ?_, h3⟩
  · rw [h2]
    exact encodedLength_of_lt hlt
  · rw [List.append_assoc, h1]

theorem length_writeU64Slice {vs : List ℕ} {out : Bytes} (h : writeU64Slice vs = .ok out) :
    out.length = 4 + vs.length * 8 := by
  unfold writeU64Slice at h
  obtain ⟨len, -, h⟩ := bind_eq_ok.mp h
  cases h
  rw [List.length_append, ClusterMembership.length_flatMap_leBytes, length_leBytes]

/-- Every number of the list fits into 64 bits. -/
def Fits (vs : List ℕ) : Prop := ∀ v ∈ vs, v < 2 ^ 64

/-- The ids of a configuration are 64-bit numbers. -/
structure ConfFits (cs : ConfState) : Prop where
  voters : Fits cs.voters
  learners : Fits cs.learners
  votersOutgoing : Fits cs.votersOutgoing
  learnersNext : Fits cs.learnersNext

theorem readConfState_write {cs : ConfState} {b : UInt8} {out : Bytes}
    (h : writeConfState b cs = .ok out) (hcs : ConfFits cs) (hb : (b != 0) = cs.autoLeave) :
    readConfState (out ++ rest) = .ok (cs, rest) := by
  unfold writeConfState at h
  obtain ⟨voters, h1, h⟩ := bind_eq_ok.mp h
  obtain ⟨learners, h2, h⟩ := bind_eq_ok.mp h
  obtain ⟨votersOutgoing, h3, h⟩ := bind_eq_ok.mp h
  obtain ⟨learnersNext, h4, h⟩ := bind_eq_ok.mp h
  cases h
  unfold readConfState
  simp only [List.append_assoc]
  refine bind_eq_ok.mpr ⟨_, readU64Slice_write h1 hcs.voters, ?_⟩
  refine bind_eq_ok.mpr ⟨_, readU64Slice_write h2 hcs.learners, ?_⟩
  refine bind_eq_ok.mpr ⟨_, readU64Slice_write h3 hcs.votersOutgoing, ?_⟩
  refine bind_eq_ok.mpr ⟨_, readU64Slice_write h4 hcs.learnersNext, ?_⟩
  refine bind_eq_ok.mpr ⟨(b, rest), rfl, ?_⟩
  rw [hb]
  rfl

theorem readConfState_ok {bs : Bytes} {cs : ConfState} (h : readConfState bs = .ok (cs, rest)) :
    ∃ b out, writeConfState b cs = .ok out ∧ bs = out ++ rest ∧ ConfFits cs ∧
      (b != 0) = cs.autoLeave := by
  unfold readConfState at h
  obtain ⟨⟨voters, bs1⟩, h1, h⟩ := bind_eq_ok.mp h
  obtain ⟨⟨learners, bs2⟩, h2, h⟩ := bind_eq_ok.mp h
  obtain ⟨⟨votersOutgoing, bs3⟩, h3, h⟩ := bind_eq_ok.mp h
  obtain ⟨⟨learnersNext, bs4⟩, h4, h⟩ := bind_eq_ok.mp h
  obtain ⟨⟨b, bs5⟩, h5, h⟩ := bind_eq_ok.mp h
  cases h
  obtain ⟨out1, w1, rfl, f1⟩ := readU64Slice_ok h1
  obtain ⟨out2, w2, rfl, f2⟩ := readU64Slice_ok h2
  obtain ⟨out3, w3, rfl, f3⟩ := readU64Slice_ok h3
  obtain ⟨out4, w4, rfl, f4⟩ := readU64Slice_ok h4
  cases readByte_ok h5
  refine ⟨b, out1 ++ (out2 ++ (out3 ++ (out4 ++ [b]))), ?_, by simp, ⟨f1, f2, f3, f4⟩, rfl⟩
  unfold writeConfState
  refine bind_eq_ok.mpr ⟨_, w1, bind_eq_ok.mpr ⟨_, w2, bind_eq_ok.mpr ⟨_, w3, ?_⟩⟩⟩
  exact bind_eq_ok.mpr ⟨_, w4, rfl⟩

theorem checkedEnum_ok {α : Type} {all : List α} {toByte : α → UInt8} {b : UInt8} {e : CodecError}
    {a : α} (h : checkedEnum all toByte b e = .ok a) : toByte a = b := by
  unfold checkedEnum at h
  split at h
  · rename_i a' hfind
    cases h
    simpa using List.find?_some hfind
  · cases h

theorem checkedEnum_messageType (t : MessageType) (e : CodecError) :
    checkedEnum MessageType.all MessageType.toByte t.toByte e = .ok t := by
  cases t <;> rfl

theorem checkedEnum_entryType (t : EntryType) (e : CodecError) :
    checkedEnum EntryType.all EntryType.toByte t.toByte e = .ok t := by
  cases t <;> rfl

/-- The numbers of an entry fit into their fields. -/
structure EntryFits (e : Entry) : Prop where
  term : e.term < 2 ^ 64
  index : e.index < 2 ^ 64
  checksum : e.checksum < 2 ^ 32

theorem decodeEntry_encode {e : Entry} {out : Bytes} (h : encodeEntry e = .ok out)
    (he : EntryFits e) : decodeEntry (out ++ rest) = .ok (e, rest) := by
  unfold encodeEntry at h
  obtain ⟨data, h1, h⟩ := bind_eq_ok.mp h
  obtain ⟨context, h2, h⟩ := bind_eq_ok.mp h
  cases h
  unfold decodeEntry
  simp only [List.cons_append, List.append_assoc]
  refine bind_eq_ok.mpr ⟨_, rfl, ?_⟩
  refine bind_eq_ok.mpr ⟨_, checkedEnum_entryType e.entryType _, ?_⟩
  refine bind_eq_ok.mpr ⟨_, readInt_leBytes (he.term.trans_eq (by norm_num)), ?_⟩
  refine bind_eq_ok.mpr ⟨_, readInt_leBytes (he.index.trans_eq (by norm_num)), ?_⟩
  refine bind_eq_ok.mpr ⟨_, readInt_leBytes (he.checksum.trans_eq (by norm_num)), ?_⟩
  refine bind_eq_ok.mpr ⟨_, readBytes_writeBytes h1, ?_⟩
  exact bind_eq_ok.mpr ⟨_, readBytes_writeBytes h2, rfl⟩

theorem decodeEntry_ok {bs : Bytes} {e : Entry} (h : decodeEntry bs = .ok (e, rest)) :
    ∃ out, encodeEntry e = .ok out ∧ bs = out ++ rest ∧ EntryFits e := by
  unfold decodeEntry at h
  obtain ⟨⟨kind, bs1⟩, h1, h⟩ := bind_eq_ok.mp h
  obtain ⟨entryType, h2, h⟩ := bind_eq_ok.mp h
  obtain ⟨⟨term, bs3⟩, h3, h⟩ := bind_eq_ok.mp h
  obtain ⟨⟨index, bs4⟩, h4, h⟩ := bind_eq_ok.mp h
  obtain ⟨⟨checksum, bs5⟩, h5, h⟩ := bind_eq_ok.mp h
  obtain ⟨⟨data, bs6⟩, h6, h⟩ := bind_eq_ok.mp h
  obtain ⟨⟨context, bs7⟩, h7, h⟩ := bind_eq_ok.mp h
  cases h
  cases readByte_ok h1
  cases checkedEnum_ok h2
  obtain ⟨rfl, f3⟩ := readInt_ok h3
  obtain ⟨rfl, f4⟩ := readInt_ok h4
  obtain ⟨rfl, f5⟩ := readInt_ok h5
  obtain ⟨out6, w6, rfl⟩ := readBytes_ok h6
  obtain ⟨out7, w7, rfl⟩ := readBytes_ok h7
  refine ⟨_, bind_eq_ok.mpr ⟨_, w6, bind_eq_ok.mpr ⟨_, w7, rfl⟩⟩, by simp, ?_⟩
  exact ⟨f3.trans_eq (by norm_num), f4.trans_eq (by norm_num), f5.trans_eq (by norm_num)⟩

theorem length_encodeEntry {e : Entry} {out : Bytes} (h : encodeEntry e = .ok out) :
    out.length = encodedEntryMinSize + e.data.length + e.context.length := by
  unfold encodeEntry at h
  obtain ⟨data, h1, h⟩ := bind_eq_ok.mp h
  obtain ⟨context, h2, h⟩ := bind_eq_ok.mp h
  cases h
  simp only [List.length_cons, List.length_append, length_leBytes, length_writeBytes h1,
    length_writeBytes h2]
  unfold encodedEntryMinSize
  omega

theorem decodeEntries_encode {es : List Entry} {out : Bytes} (h : encodeEntries es = .ok out)
    (hes : ∀ e ∈ es, EntryFits e) : decodeEntries es.length (out ++ rest) = .ok (es, rest) := by
  induction es generalizing out with
  | nil =>
      cases h
      rfl
  | cons e es ih =>
      unfold encodeEntries at h
      obtain ⟨first, h1, h⟩ := bind_eq_ok.mp h
      obtain ⟨others, h2, h⟩ := bind_eq_ok.mp h
      cases h
      simp only [List.length_cons, decodeEntries, List.append_assoc]
      refine bind_eq_ok.mpr ⟨_, decodeEntry_encode h1 (hes e List.mem_cons_self), ?_⟩
      exact bind_eq_ok.mpr ⟨_, ih h2 fun e' he' => hes e' (List.mem_cons_of_mem _ he'), rfl⟩

theorem decodeEntries_ok {n : ℕ} {bs : Bytes} {es : List Entry}
    (h : decodeEntries n bs = .ok (es, rest)) :
    ∃ out, encodeEntries es = .ok out ∧ bs = out ++ rest ∧ es.length = n ∧ ∀ e ∈ es, EntryFits e := by
  induction n generalizing bs es with
  | zero =>
      cases h
      exact ⟨[], rfl, rfl, rfl, by simp⟩
  | succ n ih =>
      unfold decodeEntries at h
      obtain ⟨⟨e, bs1⟩, h1, h⟩ := bind_eq_ok.mp h
      obtain ⟨⟨es', bs2⟩, h2, h⟩ := bind_eq_ok.mp h
      cases h
      obtain ⟨out1, w1, rfl, f1⟩ := decodeEntry_ok h1
      obtain ⟨out2, w2, rfl, hlen, f2⟩ := ih h2
      refine ⟨out1 ++ out2, bind_eq_ok.mpr ⟨_, w1, bind_eq_ok.mpr ⟨_, w2, rfl⟩⟩, by simp, ?_, ?_⟩
      · rw [List.length_cons, hlen]
      · intro e' he'
        rcases List.mem_cons.mp he' with rfl | he'
        · exact f1
        · exact f2 e' he'

/-- The sizes of the entries add up. -/
theorem length_encodeEntries {es : List Entry} {out : Bytes} (h : encodeEntries es = .ok out) :
    out.length = (es.map fun e => encodedEntryMinSize + e.data.length + e.context.length).sum := by
  induction es generalizing out with
  | nil =>
      cases h
      rfl
  | cons e es ih =>
      unfold encodeEntries at h
      obtain ⟨first, h1, h⟩ := bind_eq_ok.mp h
      obtain ⟨others, h2, h⟩ := bind_eq_ok.mp h
      cases h
      rw [List.length_append, length_encodeEntry h1, ih h2, List.map_cons, List.sum_cons]

theorem length_encodeEntries_ge {es : List Entry} {out : Bytes} (h : encodeEntries es = .ok out) :
    es.length * encodedEntryMinSize ≤ out.length := by
  rw [length_encodeEntries h]
  clear h
  induction es with
  | nil => exact Nat.zero_le _
  | cons e es ih =>
      rw [List.length_cons, List.map_cons, List.sum_cons, Nat.succ_mul]
      omega

end readers

/-! ### Messages -/

/-- The flags mean those of the message. -/
structure Flags.Means (f : Flags) (m : Message) : Prop where
  reject : (f.reject != 0) = m.reject
  hasSnapshot : (f.hasSnapshot != 0) = m.snapshot.isSome
  autoLeave : ∀ s ∈ m.snapshot, (f.autoLeave != 0) = s.metadata.confState.autoLeave

theorem boolByte_bne (b : Bool) : (boolByte b != 0) = b := by
  cases b <;> rfl

theorem means_of (m : Message) : (Flags.of m).Means m where
  reject := boolByte_bne _
  hasSnapshot := boolByte_bne _
  autoLeave s hs := by
    have hs : m.snapshot = some s := hs
    show (boolByte (m.snapshot.any _) != 0) = _
    rw [boolByte_bne, hs]
    rfl

/-- The numbers of a snapshot fit into their fields. -/
structure SnapshotFits (s : Snapshot) : Prop where
  index : s.metadata.index < 2 ^ 64
  term : s.metadata.term < 2 ^ 64
  confState : ConfFits s.metadata.confState

/-- The numbers of a message fit into their fields. -/
structure MessageFits (m : Message) : Prop where
  dest : m.dest < 2 ^ 64
  sender : m.sender < 2 ^ 64
  term : m.term < 2 ^ 64
  logTerm : m.logTerm < 2 ^ 64
  index : m.index < 2 ^ 64
  commit : m.commit < 2 ^ 64
  commitTerm : m.commitTerm < 2 ^ 64
  requestSnapshot : m.requestSnapshot < 2 ^ 64
  rejectHint : m.rejectHint < 2 ^ 64
  priority : -2 ^ 63 ≤ m.priority ∧ m.priority < 2 ^ 63
  entries : ∀ e ∈ m.entries, EntryFits e
  snapshot : ∀ s ∈ m.snapshot, SnapshotFits s

theorem toI64_ofI64 {i : ℤ} (h : -2 ^ 63 ≤ i ∧ i < 2 ^ 63) : toI64 (ofI64 i) = i := by
  unfold toI64 ofI64
  split <;> omega

theorem ofI64_lt (i : ℤ) : ofI64 i < 2 ^ 64 := by
  unfold ofI64
  omega

theorem ofI64_toI64 {n : ℕ} (h : n < 2 ^ 64) :
    ofI64 (toI64 n) = n ∧ -2 ^ 63 ≤ toI64 n ∧ toI64 n < 2 ^ 63 := by
  unfold toI64 ofI64
  split <;> omega

section messages

variable {rest : Bytes} {f : Flags} {m : Message}

theorem decodeSnapshot_encode {o : Option Snapshot} {out : Bytes}
    (h : encodeSnapshot f o = .ok out) (ho : ∀ s ∈ o, SnapshotFits s)
    (hhas : (f.hasSnapshot != 0) = o.isSome)
    (hauto : ∀ s ∈ o, (f.autoLeave != 0) = s.metadata.confState.autoLeave) :
    decodeSnapshot (out ++ rest) = .ok (o, rest) := by
  cases o with
  | none =>
      cases h
      have hzero : f.hasSnapshot = 0 := by simpa using hhas
      unfold decodeSnapshot
      refine bind_eq_ok.mpr ⟨(f.hasSnapshot, rest), rfl, ?_⟩
      dsimp only
      rw [if_pos hzero]
      rfl
  | some s =>
      have hne : f.hasSnapshot ≠ 0 := by simpa using hhas
      obtain ⟨findex, fterm, fconf⟩ := ho s rfl
      unfold encodeSnapshot at h
      obtain ⟨confState, h1, h⟩ := bind_eq_ok.mp h
      obtain ⟨membership, h2, h⟩ := bind_eq_ok.mp h
      obtain ⟨data, h3, h⟩ := bind_eq_ok.mp h
      cases h
      unfold decodeSnapshot
      simp only [List.cons_append, List.append_assoc]
      refine bind_eq_ok.mpr ⟨_, rfl, ?_⟩
      dsimp only
      rw [if_neg hne]
      refine bind_eq_ok.mpr ⟨_, readInt_leBytes (findex.trans_eq (by norm_num)), ?_⟩
      refine bind_eq_ok.mpr ⟨_, readInt_leBytes (fterm.trans_eq (by norm_num)), ?_⟩
      refine bind_eq_ok.mpr ⟨_, readConfState_write h1 fconf (hauto s rfl), ?_⟩
      refine bind_eq_ok.mpr ⟨_, readBytes_writeBytes h2, ?_⟩
      exact bind_eq_ok.mpr ⟨_, readBytes_writeBytes h3, rfl⟩

theorem decodeSnapshot_ok {bs : Bytes} {o : Option Snapshot}
    (h : decodeSnapshot bs = .ok (o, rest)) :
    ∃ x z out, (∀ r, encodeSnapshot ⟨r, x, z⟩ o = .ok out) ∧ bs = out ++ rest ∧
      (∀ s ∈ o, SnapshotFits s) ∧ (x != 0) = o.isSome ∧
      ∀ s ∈ o, (z != 0) = s.metadata.confState.autoLeave := by
  unfold decodeSnapshot at h
  obtain ⟨⟨x, bs0⟩, h0, h⟩ := bind_eq_ok.mp h
  dsimp only at h
  split at h
  · rename_i hx
    cases h
    cases readByte_ok h0
    exact ⟨x, 0, [x], fun _ => rfl, rfl, by simp, by simp [hx], by simp⟩
  · rename_i hx
    obtain ⟨⟨index, bs1⟩, h1, h⟩ := bind_eq_ok.mp h
    obtain ⟨⟨term, bs2⟩, h2, h⟩ := bind_eq_ok.mp h
    obtain ⟨⟨confState, bs3⟩, h3, h⟩ := bind_eq_ok.mp h
    obtain ⟨⟨membership, bs4⟩, h4, h⟩ := bind_eq_ok.mp h
    obtain ⟨⟨data, bs5⟩, h5, h⟩ := bind_eq_ok.mp h
    cases h
    cases readByte_ok h0
    obtain ⟨rfl, f1⟩ := readInt_ok h1
    obtain ⟨rfl, f2⟩ := readInt_ok h2
    obtain ⟨z, out3, w3, rfl, f3, hz⟩ := readConfState_ok h3
    obtain ⟨out4, w4, rfl⟩ := readBytes_ok h4
    obtain ⟨out5, w5, rfl⟩ := readBytes_ok h5
    refine ⟨x, z, x :: (leBytes index 8 ++ (leBytes term 8 ++ (out3 ++ (out4 ++ out5)))), fun r =>
      bind_eq_ok.mpr ⟨_, w3, bind_eq_ok.mpr ⟨_, w4, bind_eq_ok.mpr ⟨_, w5, rfl⟩⟩⟩, ?_, ?_,
      by simp [hx], ?_⟩
    · simp only [List.cons_append, List.append_assoc]
    · rintro s ⟨⟩
      exact ⟨f1.trans_eq (by norm_num), f2.trans_eq (by norm_num), f3⟩
    · rintro s ⟨⟩
      exact hz

/-- The decoder reads what has been written, with any bytes for the flags. -/
theorem decodeMessageAt_encodeWith {out : Bytes} (h : encodeWith f m = .ok out)
    (hf : f.Means m) (hm : MessageFits m) : decodeMessageAt (out ++ rest) = .ok (m, rest) := by
  unfold encodeWith at h
  obtain ⟨context, h1, h⟩ := bind_eq_ok.mp h
  obtain ⟨count, h2, h⟩ := bind_eq_ok.mp h
  obtain ⟨entries, h3, h⟩ := bind_eq_ok.mp h
  obtain ⟨snapshot, h4, h⟩ := bind_eq_ok.mp h
  cases h
  obtain ⟨rfl, hcount⟩ := encodedLength_eq h2
  have h64 : ∀ {n : ℕ}, n < 2 ^ 64 → n < 256 ^ 8 := fun hn => hn.trans_eq (by norm_num)
  unfold decodeMessageAt encodeHead
  simp only [List.cons_append, List.append_assoc]
  refine bind_eq_ok.mpr ⟨_, rfl, ?_⟩
  refine bind_eq_ok.mpr ⟨_, checkedEnum_messageType m.msgType _, ?_⟩
  refine bind_eq_ok.mpr ⟨_, readInt_leBytes (h64 hm.dest), ?_⟩
  refine bind_eq_ok.mpr ⟨_, readInt_leBytes (h64 hm.sender), ?_⟩
  refine bind_eq_ok.mpr ⟨_, readInt_leBytes (h64 hm.term), ?_⟩
  refine bind_eq_ok.mpr ⟨_, readInt_leBytes (h64 hm.logTerm), ?_⟩
  refine bind_eq_ok.mpr ⟨_, readInt_leBytes (h64 hm.index), ?_⟩
  refine bind_eq_ok.mpr ⟨_, readInt_leBytes (h64 hm.commit), ?_⟩
  refine bind_eq_ok.mpr ⟨_, readInt_leBytes (h64 hm.commitTerm), ?_⟩
  refine bind_eq_ok.mpr ⟨_, readInt_leBytes (h64 hm.requestSnapshot), ?_⟩
  refine bind_eq_ok.mpr ⟨_, rfl, ?_⟩
  refine bind_eq_ok.mpr ⟨_, readInt_leBytes (h64 hm.rejectHint), ?_⟩
  refine bind_eq_ok.mpr ⟨_, readInt_leBytes (h64 (ofI64_lt m.priority)), ?_⟩
  refine bind_eq_ok.mpr ⟨_, readBytes_writeBytes h1, ?_⟩
  refine bind_eq_ok.mpr ⟨_, readInt_leBytes hcount, ?_⟩
  refine bind_eq_ok.mpr ⟨(), ensure_eq_ok.mpr ?_, ?_⟩
  · -- the entries and the snapshot flag are still to come
    have hentries := length_encodeEntries_ge h3
    have hsnapshot : 1 ≤ snapshot.length := by
      cases hs : m.snapshot with
      | none =>
          rw [hs] at h4
          cases h4
          exact le_rfl
      | some s =>
          rw [hs] at h4
          unfold encodeSnapshot at h4
          obtain ⟨_, _, h4⟩ := bind_eq_ok.mp h4
          obtain ⟨_, _, h4⟩ := bind_eq_ok.mp h4
          obtain ⟨_, _, h4⟩ := bind_eq_ok.mp h4
          cases h4
          simp
    simp only [List.length_append]
    refine ⟨by omega, ?_⟩
    rw [Nat.le_div_iff_mul_le (by decide)]
    omega
  refine bind_eq_ok.mpr ⟨_, decodeEntries_encode h3 hm.entries, ?_⟩
  refine bind_eq_ok.mpr ⟨_, decodeSnapshot_encode h4 hm.snapshot hf.hasSnapshot hf.autoLeave, ?_⟩
  rw [hf.reject, toI64_ofI64 hm.priority]
  rfl

/-- What the decoder accepts has been written with some bytes for the flags. -/
theorem decodeMessageAt_ok {bs : Bytes} (h : decodeMessageAt bs = .ok (m, rest)) :
    ∃ f out, encodeWith f m = .ok out ∧ bs = out ++ rest ∧ f.Means m ∧ MessageFits m := by
  unfold decodeMessageAt at h
  obtain ⟨⟨kind, bs0⟩, h0, h⟩ := bind_eq_ok.mp h
  obtain ⟨msgType, hkind, h⟩ := bind_eq_ok.mp h
  obtain ⟨⟨dest, bs1⟩, h1, h⟩ := bind_eq_ok.mp h
  obtain ⟨⟨sender, bs2⟩, h2, h⟩ := bind_eq_ok.mp h
  obtain ⟨⟨term, bs3⟩, h3, h⟩ := bind_eq_ok.mp h
  obtain ⟨⟨logTerm, bs4⟩, h4, h⟩ := bind_eq_ok.mp h
  obtain ⟨⟨index, bs5⟩, h5, h⟩ := bind_eq_ok.mp h
  obtain ⟨⟨commit, bs6⟩, h6, h⟩ := bind_eq_ok.mp h
  obtain ⟨⟨commitTerm, bs7⟩, h7, h⟩ := bind_eq_ok.mp h
  obtain ⟨⟨requestSnapshot, bs8⟩, h8, h⟩ := bind_eq_ok.mp h
  obtain ⟨⟨reject, bs9⟩, h9, h⟩ := bind_eq_ok.mp h
  obtain ⟨⟨rejectHint, bs10⟩, h10, h⟩ := bind_eq_ok.mp h
  obtain ⟨⟨priority, bs11⟩, h11, h⟩ := bind_eq_ok.mp h
  obtain ⟨⟨context, bs12⟩, h12, h⟩ := bind_eq_ok.mp h
  obtain ⟨⟨numEntries, bs13⟩, h13, h⟩ := bind_eq_ok.mp h
  obtain ⟨_, _, h⟩ := bind_eq_ok.mp h
  obtain ⟨⟨entries, bs14⟩, h14, h⟩ := bind_eq_ok.mp h
  obtain ⟨⟨snapshot, bs15⟩, h15, h⟩ := bind_eq_ok.mp h
  cases h
  cases readByte_ok h0
  cases checkedEnum_ok hkind
  obtain ⟨rfl, f1⟩ := readInt_ok h1
  obtain ⟨rfl, f2⟩ := readInt_ok h2
  obtain ⟨rfl, f3⟩ := readInt_ok h3
  obtain ⟨rfl, f4⟩ := readInt_ok h4
  obtain ⟨rfl, f5⟩ := readInt_ok h5
  obtain ⟨rfl, f6⟩ := readInt_ok h6
  obtain ⟨rfl, f7⟩ := readInt_ok h7
  obtain ⟨rfl, f8⟩ := readInt_ok h8
  cases readByte_ok h9
  obtain ⟨rfl, f10⟩ := readInt_ok h10
  obtain ⟨rfl, f11⟩ := readInt_ok h11
  obtain ⟨out12, w12, rfl⟩ := readBytes_ok h12
  obtain ⟨rfl, f13⟩ := readInt_ok h13
  obtain ⟨out14, w14, rfl, hlen, f14⟩ := decodeEntries_ok h14
  obtain ⟨x, z, out15, w15, rfl, f15, hx, hz⟩ := decodeSnapshot_ok h15
  have h64 : ∀ {n : ℕ}, n < 256 ^ 8 → n < 2 ^ 64 := fun hn => hn.trans_eq (by norm_num)
  obtain ⟨hprio, hprio1, hprio2⟩ := ofI64_toI64 (h64 f11)
  subst hlen
  refine ⟨⟨reject, x, z⟩, _, bind_eq_ok.mpr ⟨_, w12, bind_eq_ok.mpr ⟨_, encodedLength_of_lt f13,
    bind_eq_ok.mpr ⟨_, w14, bind_eq_ok.mpr ⟨_, w15 reject, rfl⟩⟩⟩⟩, ?_, ⟨rfl, hx, hz⟩, ?_⟩
  · unfold encodeHead
    dsimp only
    rw [hprio]
    simp only [List.cons_append, List.append_assoc]
  · exact ⟨h64 f1, h64 f2, h64 f3, h64 f4, h64 f5, h64 f6, h64 f7, h64 f8, h64 f10,
      ⟨hprio1, hprio2⟩, f14, f15⟩

end messages

/-! ### Where two encodings of a message differ -/

/-- Position of the flag of a rejection. -/
def rejectAt : ℕ := 65

/-- Position of the flag that tells whether there is a snapshot. -/
def hasSnapshotAt (m : Message) : ℕ :=
  rejectAt + 1 + 8 + 8 + (4 + m.context.length) + 4 +
    (m.entries.map fun e => encodedEntryMinSize + e.data.length + e.context.length).sum

/-- Position of the flag of the snapshot's configuration. -/
def autoLeaveAt (m : Message) (s : Snapshot) : ℕ :=
  hasSnapshotAt m + 1 + 8 + 8 + (4 + s.metadata.confState.voters.length * 8) +
    (4 + s.metadata.confState.learners.length * 8) +
    (4 + s.metadata.confState.votersOutgoing.length * 8) +
    (4 + s.metadata.confState.learnersNext.length * 8)

/-- Positions of the boolean bytes. -/
def booleanBytes (m : Message) : List ℕ :=
  rejectAt :: hasSnapshotAt m :: (m.snapshot.map (autoLeaveAt m)).toList

section differences

variable {f : Flags} {m : Message}

/-- Two lists that agree up to a byte differ there or after it. -/
theorem getElem?_differ {a b b' : Bytes} {x x' : UInt8} {k : ℕ}
    (h : (a ++ x :: b)[k]? ≠ (a ++ x' :: b')[k]?) :
    (k = a.length ∧ x ≠ x' ∧ (a ++ x :: b)[k]? = some x) ∨
      ∃ j, k = a.length + 1 + j ∧ b[j]? ≠ b'[j]? ∧ (a ++ x :: b)[k]? = b[j]? := by
  rcases Nat.lt_trichotomy k a.length with hk | hk | hk
  · rw [List.getElem?_append_left hk, List.getElem?_append_left hk] at h
    exact absurd rfl h
  · subst hk
    simp only [List.getElem?_append_right le_rfl, Nat.sub_self, List.getElem?_cons_zero, ne_eq,
      Option.some_inj] at h
    refine Or.inl ⟨rfl, h, ?_⟩
    rw [List.getElem?_append_right le_rfl, Nat.sub_self, List.getElem?_cons_zero]
  · obtain ⟨j, rfl⟩ : ∃ j, k = a.length + 1 + j := ⟨k - (a.length + 1), by omega⟩
    have hj : ∀ (y : UInt8) (bs : Bytes), (a ++ y :: bs)[a.length + 1 + j]? = bs[j]? := by
      intro y bs
      rw [List.getElem?_append_right (by omega)]
      have : a.length + 1 + j - a.length = j + 1 := by omega
      rw [this, List.getElem?_cons_succ]
    rw [hj, hj] at h
    exact Or.inr ⟨j, rfl, h, hj _ _⟩

/-- The configuration: its lists, then its flag. -/
theorem writeConfState_shape {b : UInt8} {cs : ConfState} {out : Bytes}
    (h : writeConfState b cs = .ok out) : ∃ front : Bytes,
      front.length = (4 + cs.voters.length * 8) + (4 + cs.learners.length * 8) +
        (4 + cs.votersOutgoing.length * 8) + (4 + cs.learnersNext.length * 8) ∧
      ∀ b, writeConfState b cs = .ok (front ++ [b]) := by
  unfold writeConfState at h
  obtain ⟨voters, h1, h⟩ := bind_eq_ok.mp h
  obtain ⟨learners, h2, h⟩ := bind_eq_ok.mp h
  obtain ⟨votersOutgoing, h3, h⟩ := bind_eq_ok.mp h
  obtain ⟨learnersNext, h4, _⟩ := bind_eq_ok.mp h
  refine ⟨voters ++ (learners ++ (votersOutgoing ++ learnersNext)), ?_, fun b => ?_⟩
  · simp only [List.length_append, length_writeU64Slice h1, length_writeU64Slice h2,
      length_writeU64Slice h3, length_writeU64Slice h4]
    omega
  · unfold writeConfState
    refine bind_eq_ok.mpr ⟨_, h1, bind_eq_ok.mpr ⟨_, h2, bind_eq_ok.mpr ⟨_, h3, ?_⟩⟩⟩
    refine bind_eq_ok.mpr ⟨_, h4, ?_⟩
    simp only [List.append_assoc]
    rfl

/-- The snapshot: its flag, then what only the flag of the configuration changes. -/
theorem encodeSnapshot_shape {o : Option Snapshot} {out : Bytes}
    (h : encodeSnapshot f o = .ok out) : ∃ tail : UInt8 → Bytes,
      (∀ g : Flags, encodeSnapshot g o = .ok (g.hasSnapshot :: tail g.autoLeave)) ∧
      ((o = none ∧ ∀ b, tail b = []) ∨ ∃ s front back, o = some s ∧
        (front : Bytes).length = 8 + 8 + (4 + s.metadata.confState.voters.length * 8) +
          (4 + s.metadata.confState.learners.length * 8) +
          (4 + s.metadata.confState.votersOutgoing.length * 8) +
          (4 + s.metadata.confState.learnersNext.length * 8) ∧
        ∀ b, tail b = front ++ b :: back) := by
  cases o with
  | none => exact ⟨fun _ => [], fun _ => rfl, Or.inl ⟨rfl, fun _ => rfl⟩⟩
  | some s =>
      unfold encodeSnapshot at h
      obtain ⟨confState, h1, h⟩ := bind_eq_ok.mp h
      obtain ⟨membership, h2, h⟩ := bind_eq_ok.mp h
      obtain ⟨data, h3, _⟩ := bind_eq_ok.mp h
      obtain ⟨front, hlen, hwrite⟩ := writeConfState_shape h1
      refine ⟨fun b => leBytes s.metadata.index 8 ++ (leBytes s.metadata.term 8 ++ front) ++
        b :: (membership ++ data), fun g => ?_, Or.inr ⟨s, _, _, rfl, ?_, fun b => rfl⟩⟩
      · unfold encodeSnapshot
        refine bind_eq_ok.mpr ⟨_, hwrite g.autoLeave, bind_eq_ok.mpr ⟨_, h2, ?_⟩⟩
        refine bind_eq_ok.mpr ⟨_, h3, ?_⟩
        show Except.ok _ = Except.ok _
        simp only [List.append_assoc, List.cons_append, List.nil_append]
      · simp only [List.length_append, length_leBytes, hlen]
        omega

/-- A message: three pieces between the flags. -/
theorem encodeWith_shape {out : Bytes} (h : encodeWith f m = .ok out) :
    ∃ (middle : Bytes) (tail : UInt8 → Bytes),
      rejectAt + 1 + middle.length = hasSnapshotAt m ∧
      (∀ g : Flags, encodeWith g m =
        .ok (encodeHead m ++ g.reject :: (middle ++ g.hasSnapshot :: tail g.autoLeave))) ∧
      ((m.snapshot = none ∧ ∀ b, tail b = []) ∨ ∃ s front back, m.snapshot = some s ∧
        hasSnapshotAt m + 1 + (front : Bytes).length = autoLeaveAt m s ∧
        ∀ b, tail b = front ++ b :: back) := by
  unfold encodeWith at h
  obtain ⟨context, h1, h⟩ := bind_eq_ok.mp h
  obtain ⟨count, h2, h⟩ := bind_eq_ok.mp h
  obtain ⟨entries, h3, h⟩ := bind_eq_ok.mp h
  obtain ⟨snapshot, h4, _⟩ := bind_eq_ok.mp h
  obtain ⟨tail, hsnap, hcase⟩ := encodeSnapshot_shape h4
  refine ⟨leBytes m.rejectHint 8 ++ (leBytes (ofI64 m.priority) 8 ++ (context ++
    (leBytes count 4 ++ entries))), tail, ?_, fun g => ?_, ?_⟩
  · simp only [List.length_append, length_leBytes, length_writeBytes h1, length_encodeEntries h3]
    unfold hasSnapshotAt
    omega
  · unfold encodeWith
    refine bind_eq_ok.mpr ⟨_, h1, bind_eq_ok.mpr ⟨_, h2, bind_eq_ok.mpr ⟨_, h3, ?_⟩⟩⟩
    refine bind_eq_ok.mpr ⟨_, hsnap g, ?_⟩
    simp only [List.append_assoc]
    rfl
  · rcases hcase with hnone | ⟨s, front, back, hs, hlen, htail⟩
    · exact Or.inl hnone
    · refine Or.inr ⟨s, front, back, hs, ?_, htail⟩
      unfold autoLeaveAt
      omega

theorem length_encodeHead (m : Message) : (encodeHead m).length = rejectAt := by
  simp [encodeHead, rejectAt]

theorem ne_zero_of_differ {x : UInt8} {b : Bool} (h : (x != 0) = b) (hne : x ≠ boolByte b) : x ≠ 0 := by
  rintro rfl
  subst h
  exact hne rfl

/-- Whatever the flags, only non-zero boolean bytes differ from the zeros and ones. -/
theorem encodeWith_differs {out : Bytes} (h : encodeWith f m = .ok out) (hf : f.Means m) :
    ∃ canonical, encodeMessage m = .ok canonical ∧ canonical.length = out.length ∧
      ∀ k, out[k]? ≠ canonical[k]? → k ∈ booleanBytes m ∧ out[k]? ≠ some 0 := by
  obtain ⟨middle, tail, hmiddle, hwrite, htail⟩ := encodeWith_shape h
  have hout := h
  rw [hwrite f] at hout
  cases hout
  refine ⟨_, hwrite (Flags.of m), ?_, fun k hk => ?_⟩
  · have htl : ∀ b b', (tail b).length = (tail b').length := by
      intro b b'
      rcases htail with ⟨-, hnil⟩ | ⟨s, front, back, -, -, hsplit⟩
      · rw [hnil, hnil]
      · simp only [hsplit, List.length_append, List.length_cons]
    simp only [List.length_append, List.length_cons, htl (Flags.of m).autoLeave f.autoLeave]
  · unfold booleanBytes
    rcases getElem?_differ hk with ⟨hpos, hne, hval⟩ | ⟨j, hpos, hj, hval⟩
    · rw [length_encodeHead] at hpos
      rw [hval]
      refine ⟨by simp [hpos], fun hzero => ne_zero_of_differ hf.reject hne (Option.some_inj.mp hzero)⟩
    · rw [hval]
      rcases getElem?_differ hj with ⟨hpos', hne, hval'⟩ | ⟨j', hpos', hj', hval'⟩
      · rw [hval']
        have hk : k = hasSnapshotAt m := by
          rw [length_encodeHead] at hpos
          omega
        exact ⟨by simp [hk], fun hzero =>
          ne_zero_of_differ hf.hasSnapshot hne (Option.some_inj.mp hzero)⟩
      · rw [hval']
        rcases htail with ⟨-, hnil⟩ | ⟨s, front, back, hs, hlen, hsplit⟩
        · rw [hnil, hnil] at hj'
          exact absurd rfl hj'
        · rw [hsplit, hsplit] at hj'
          rcases getElem?_differ hj' with ⟨hpos'', hne, hval''⟩ | ⟨j'', -, hj'', -⟩
          · rw [hsplit, hval'']
            have hk : k = autoLeaveAt m s := by
              rw [length_encodeHead] at hpos
              omega
            refine ⟨by simp [hk, hs], fun hzero => ?_⟩
            refine ne_zero_of_differ (hf.autoLeave s hs) ?_ (Option.some_inj.mp hzero)
            intro heq
            refine hne (heq.trans ?_)
            show _ = boolByte (m.snapshot.any _)
            rw [hs]
            rfl
          · exact absurd rfl hj''

end differences

/-! ### Frames and envelopes -/

/-- All byte strings and lists of a message have a 32-bit length. -/
structure Short (m : Message) : Prop where
  context : m.context.length < 2 ^ 32
  entries : m.entries.length < 2 ^ 32
  entry : ∀ e ∈ m.entries, e.data.length < 2 ^ 32 ∧ e.context.length < 2 ^ 32
  snapshot : ∀ s ∈ m.snapshot, s.membership.length < 2 ^ 32 ∧ s.data.length < 2 ^ 32 ∧
    s.metadata.confState.voters.length < 2 ^ 32 ∧ s.metadata.confState.learners.length < 2 ^ 32 ∧
    s.metadata.confState.votersOutgoing.length < 2 ^ 32 ∧
    s.metadata.confState.learnersNext.length < 2 ^ 32

section frames

variable {m : Message}

theorem writeBytes_of {bs : Bytes} (h : bs.length < 2 ^ 32) : ∃ out, writeBytes bs = .ok out :=
  ⟨_, bind_eq_ok.mpr ⟨_, encodedLength_of h, rfl⟩⟩

theorem writeU64Slice_of {vs : List ℕ} (h : vs.length < 2 ^ 32) :
    ∃ out, writeU64Slice vs = .ok out := ⟨_, bind_eq_ok.mpr ⟨_, encodedLength_of h, rfl⟩⟩

theorem encodeEntries_of {es : List Entry}
    (h : ∀ e ∈ es, e.data.length < 2 ^ 32 ∧ e.context.length < 2 ^ 32) :
    ∃ out, encodeEntries es = .ok out := by
  induction es with
  | nil => exact ⟨[], rfl⟩
  | cons e es ih =>
      obtain ⟨hd, hc⟩ := h e List.mem_cons_self
      obtain ⟨data, h1⟩ := writeBytes_of hd
      obtain ⟨context, h2⟩ := writeBytes_of hc
      obtain ⟨others, h3⟩ := ih fun e' he' => h e' (List.mem_cons_of_mem _ he')
      exact ⟨_, bind_eq_ok.mpr ⟨_, bind_eq_ok.mpr ⟨_, h1, bind_eq_ok.mpr ⟨_, h2, rfl⟩⟩,
        bind_eq_ok.mpr ⟨_, h3, rfl⟩⟩⟩

/-- A message whose pieces are short enough is encoded. -/
theorem encodeMessage_of (h : Short m) : ∃ out, encodeMessage m = .ok out := by
  obtain ⟨context, h1⟩ := writeBytes_of h.context
  obtain ⟨entries, h3⟩ := encodeEntries_of h.entry
  have hsnapshot : ∃ snapshot, encodeSnapshot (Flags.of m) m.snapshot = .ok snapshot := by
    cases hs : m.snapshot with
    | none => exact ⟨_, rfl⟩
    | some s =>
        obtain ⟨hmem, hdata, c1, c2, c3, c4⟩ := h.snapshot s hs
        obtain ⟨membership, w1⟩ := writeBytes_of hmem
        obtain ⟨data, w2⟩ := writeBytes_of hdata
        obtain ⟨voters, w3⟩ := writeU64Slice_of c1
        obtain ⟨learners, w4⟩ := writeU64Slice_of c2
        obtain ⟨votersOutgoing, w5⟩ := writeU64Slice_of c3
        obtain ⟨learnersNext, w6⟩ := writeU64Slice_of c4
        exact ⟨_, bind_eq_ok.mpr ⟨_, bind_eq_ok.mpr ⟨_, w3, bind_eq_ok.mpr ⟨_, w4,
          bind_eq_ok.mpr ⟨_, w5, bind_eq_ok.mpr ⟨_, w6, rfl⟩⟩⟩⟩, bind_eq_ok.mpr ⟨_, w1,
          bind_eq_ok.mpr ⟨_, w2, rfl⟩⟩⟩⟩
  obtain ⟨snapshot, h4⟩ := hsnapshot
  exact ⟨_, bind_eq_ok.mpr ⟨_, h1, bind_eq_ok.mpr ⟨_, encodedLength_of h.entries,
    bind_eq_ok.mpr ⟨_, h3, bind_eq_ok.mpr ⟨_, h4, rfl⟩⟩⟩⟩⟩

theorem decodeMessage_encodeMessage {out : Bytes} (h : encodeMessage m = .ok out)
    (hm : MessageFits m) : decodeMessage out = .ok m := by
  have hat := @decodeMessageAt_encodeWith [] _ _ _ h (means_of m) hm
  rw [List.append_nil] at hat
  unfold decodeMessage
  refine bind_eq_ok.mpr ⟨_, hat, ?_⟩
  exact bind_eq_ok.mpr ⟨(), ensure_eq_ok.mpr rfl, rfl⟩

theorem decodeMessage_ok {bs : Bytes} (h : decodeMessage bs = .ok m) :
    decodeMessageAt bs = .ok (m, []) := by
  unfold decodeMessage at h
  obtain ⟨⟨m', rest⟩, hat, h⟩ := bind_eq_ok.mp h
  obtain ⟨_, hrest, h⟩ := bind_eq_ok.mp h
  cases h
  rw [ensure_eq_ok.mp hrest] at hat
  exact hat

/-- Nothing shorter than an encoding is accepted in its place. -/
theorem decodeMessage_prefix {out p q : Bytes} {m' : Message} (h : encodeMessage m = .ok out)
    (hm : MessageFits m) (hout : out = p ++ q) (hp : decodeMessage p = .ok m') : q = [] := by
  obtain ⟨g, out', hg, hbs, hmeans, hfits⟩ := decodeMessageAt_ok (decodeMessage_ok hp)
  rw [List.append_nil] at hbs
  have h1 := @decodeMessageAt_encodeWith [] _ _ _ h (means_of m) hm
  have h2 := @decodeMessageAt_encodeWith q _ _ _ hg hmeans hfits
  rw [List.append_nil, hout, hbs, h2] at h1
  cases h1
  rfl

theorem decodeFramed_encodeFramed {payload : Bytes} {fromNode toNode : ℕ}
    (h : encodeMessage m = .ok payload) (hm : MessageFits m) (hlen : payload.length < 2 ^ 32) :
    ∃ frame, encodeFramed m fromNode toNode = .ok frame ∧
      ∀ rest, decodeFramed (frame ++ rest) = .ok (m, frame.length) := by
  refine ⟨_, bind_eq_ok.mpr ⟨_, h, bind_eq_ok.mpr ⟨_, encodedLength_of hlen, rfl⟩⟩, fun rest => ?_⟩
  unfold decodeFramed
  simp only [List.cons_append, List.append_assoc]
  refine bind_eq_ok.mpr ⟨_, readInt_leBytes (by decide), ?_⟩
  refine bind_eq_ok.mpr ⟨(), ensure_eq_ok.mpr rfl, ?_⟩
  refine bind_eq_ok.mpr ⟨_, readInt_leBytes (by decide), ?_⟩
  refine bind_eq_ok.mpr ⟨(), ensure_eq_ok.mpr rfl, ?_⟩
  refine bind_eq_ok.mpr ⟨_, bind_eq_ok.mpr ⟨_, take_append (length_leBytes _ _), rfl⟩, ?_⟩
  refine bind_eq_ok.mpr ⟨_, bind_eq_ok.mpr ⟨_, take_append (length_leBytes _ _), rfl⟩, ?_⟩
  refine bind_eq_ok.mpr ⟨_, bind_eq_ok.mpr ⟨_, take_append (length_leBytes _ _), rfl⟩, ?_⟩
  refine bind_eq_ok.mpr ⟨_, rfl, ?_⟩
  refine bind_eq_ok.mpr ⟨_, checkedEnum_messageType m.msgType _, ?_⟩
  refine bind_eq_ok.mpr ⟨_, readInt_leBytes (hlen.trans_eq (by norm_num)), ?_⟩
  refine bind_eq_ok.mpr ⟨_, take_append rfl, ?_⟩
  refine bind_eq_ok.mpr ⟨_, decodeMessage_encodeMessage h hm, ?_⟩
  refine bind_eq_ok.mpr ⟨(), ensure_eq_ok.mpr rfl, ?_⟩
  show Except.ok (m, _) = Except.ok (m, _)
  simp only [List.length_append, List.length_cons]
  congr 2
  omega

theorem decodeEnvelope_encodeEnvelope {payload : Bytes} {groupId : ℕ} (hg : groupId ≠ 0)
    (hg64 : groupId < 2 ^ 64) (h : encodeMessage m = .ok payload) (hm : MessageFits m)
    (hlen : payload.length < 2 ^ 32) :
    ∃ out, encodeEnvelope groupId m = .ok out ∧ decodeEnvelope out = .ok (groupId, m) := by
  refine ⟨_, bind_eq_ok.mpr ⟨(), ensure_eq_ok.mpr hg, bind_eq_ok.mpr ⟨_, h, bind_eq_ok.mpr
    ⟨_, encodedLength_of hlen, rfl⟩⟩⟩, ?_⟩
  unfold decodeEnvelope
  refine bind_eq_ok.mpr ⟨(), ensure_eq_ok.mpr (by simp [envelopeHeaderSize]; omega), ?_⟩
  refine bind_eq_ok.mpr ⟨_, readInt_leBytes (by decide), ?_⟩
  refine bind_eq_ok.mpr ⟨(), ensure_eq_ok.mpr rfl, ?_⟩
  refine bind_eq_ok.mpr ⟨_, readInt_leBytes (by decide), ?_⟩
  refine bind_eq_ok.mpr ⟨(), ensure_eq_ok.mpr rfl, ?_⟩
  refine bind_eq_ok.mpr ⟨_, readInt_leBytes (hg64.trans_eq (by norm_num)), ?_⟩
  refine bind_eq_ok.mpr ⟨(), ensure_eq_ok.mpr hg, ?_⟩
  refine bind_eq_ok.mpr ⟨_, readInt_leBytes (hlen.trans_eq (by norm_num)), ?_⟩
  refine bind_eq_ok.mpr ⟨(), ensure_eq_ok.mpr le_rfl, ?_⟩
  refine bind_eq_ok.mpr ⟨(), ensure_eq_ok.mpr le_rfl, ?_⟩
  exact bind_eq_ok.mpr ⟨_, decodeMessage_encodeMessage h hm, rfl⟩

/-- A length and the bytes it counts determine where an encoding ends. -/
theorem end_of_length {a a' payload payload' rest q : Bytes} (hn : payload.length < 256 ^ 4)
    (hn' : payload'.length < 256 ^ 4) (ha : a.length = a'.length)
    (h : a ++ (leBytes payload.length 4 ++ payload) =
      a' ++ (leBytes payload'.length 4 ++ (payload' ++ rest)) ++ q) : q = [] := by
  rw [List.append_assoc, List.append_assoc] at h
  obtain ⟨hlen, hpay⟩ := List.append_inj (List.append_inj_right h ha) (by simp)
  have heq : payload.length = payload'.length := by
    rw [← ofLeBytes_leBytes hn, ← ofLeBytes_leBytes hn', hlen]
  have hall := congrArg List.length hpay
  simp only [List.length_append] at hall
  exact List.length_eq_zero_iff.mp (by omega)

theorem decodeFramed_prefix {fromNode toNode n : ℕ} {frame p q : Bytes} {m' : Message}
    (h : encodeFramed m fromNode toNode = .ok frame) (hframe : frame = p ++ q)
    (hp : decodeFramed p = .ok (m', n)) : q = [] := by
  unfold encodeFramed at h
  obtain ⟨payload, -, h⟩ := bind_eq_ok.mp h
  obtain ⟨len, hlen, h⟩ := bind_eq_ok.mp h
  obtain ⟨rfl, hlt⟩ := encodedLength_eq hlen
  cases h
  unfold decodeFramed at hp
  obtain ⟨⟨magic, bs1⟩, h1, hp⟩ := bind_eq_ok.mp hp
  obtain ⟨_, -, hp⟩ := bind_eq_ok.mp hp
  obtain ⟨⟨version, bs2⟩, h2, hp⟩ := bind_eq_ok.mp hp
  obtain ⟨_, -, hp⟩ := bind_eq_ok.mp hp
  obtain ⟨⟨source, bs3⟩, h3, hp⟩ := bind_eq_ok.mp hp
  obtain ⟨⟨target, bs4⟩, h4, hp⟩ := bind_eq_ok.mp hp
  obtain ⟨⟨request, bs5⟩, h5, hp⟩ := bind_eq_ok.mp hp
  obtain ⟨⟨kind, bs6⟩, h6, hp⟩ := bind_eq_ok.mp hp
  obtain ⟨_, -, hp⟩ := bind_eq_ok.mp hp
  obtain ⟨⟨len, bs7⟩, h7, hp⟩ := bind_eq_ok.mp hp
  obtain ⟨⟨payload', bs8⟩, h8, -⟩ := bind_eq_ok.mp hp
  obtain ⟨rfl, -⟩ := readInt_ok h1
  obtain ⟨rfl, -⟩ := readInt_ok h2
  obtain ⟨rfl, -⟩ := readInt_ok h3
  obtain ⟨rfl, -⟩ := readInt_ok h4
  obtain ⟨rfl, -⟩ := readInt_ok h5
  cases readByte_ok h6
  obtain ⟨rfl, hlt'⟩ := readInt_ok h7
  obtain ⟨rfl, rfl⟩ := take_ok h8
  refine @end_of_length (leBytes codecMagic 4 ++ (leBytes codecVersion 4 ++ (leBytes fromNode 8 ++
    (leBytes toNode 8 ++ (leBytes 0 8 ++ [m.msgType.toByte])))))
    (leBytes magic 4 ++ (leBytes version 4 ++ (leBytes source 8 ++ (leBytes target 8 ++
      (leBytes request 8 ++ [kind]))))) payload payload' bs8 q hlt hlt' (by simp) ?_
  simpa using hframe

theorem decodeEnvelope_prefix {groupId : ℕ} {out p q : Bytes} {d : ℕ × Message}
    (h : encodeEnvelope groupId m = .ok out) (hout : out = p ++ q)
    (hp : decodeEnvelope p = .ok d) : q = [] := by
  unfold encodeEnvelope at h
  obtain ⟨_, -, h⟩ := bind_eq_ok.mp h
  obtain ⟨payload, -, h⟩ := bind_eq_ok.mp h
  obtain ⟨len, hlen, h⟩ := bind_eq_ok.mp h
  obtain ⟨rfl, hlt⟩ := encodedLength_eq hlen
  cases h
  unfold decodeEnvelope at hp
  obtain ⟨_, -, hp⟩ := bind_eq_ok.mp hp
  obtain ⟨⟨magic, bs1⟩, h1, hp⟩ := bind_eq_ok.mp hp
  obtain ⟨_, -, hp⟩ := bind_eq_ok.mp hp
  obtain ⟨⟨version, bs2⟩, h2, hp⟩ := bind_eq_ok.mp hp
  obtain ⟨_, -, hp⟩ := bind_eq_ok.mp hp
  obtain ⟨⟨group, bs3⟩, h3, hp⟩ := bind_eq_ok.mp hp
  obtain ⟨_, -, hp⟩ := bind_eq_ok.mp hp
  obtain ⟨⟨len, bs4⟩, h4, hp⟩ := bind_eq_ok.mp hp
  obtain ⟨_, hge, hp⟩ := bind_eq_ok.mp hp
  obtain ⟨_, hle, -⟩ := bind_eq_ok.mp hp
  have hlen' : len = bs4.length := le_antisymm (ensure_eq_ok.mp hle) (ensure_eq_ok.mp hge)
  obtain ⟨rfl, -⟩ := readInt_ok h1
  obtain ⟨rfl, -⟩ := readInt_ok h2
  obtain ⟨rfl, -⟩ := readInt_ok h3
  obtain ⟨rfl, hlt'⟩ := readInt_ok h4
  subst hlen'
  refine @end_of_length (leBytes envelopeMagic 4 ++ (leBytes envelopeVersion 4 ++ leBytes groupId 8))
    (leBytes magic 4 ++ (leBytes version 4 ++ leBytes group 8)) payload bs4 [] q hlt hlt' (by simp) ?_
  simpa using hout

/-- Messages survive their encodings, alone, framed and in an envelope; what the decoder accepts is
an encoding up to non-zero boolean bytes; and nothing shorter than an encoding is accepted. -/
theorem round_trip :
    (∀ m, MessageFits m → Short m → ∃ out, encodeMessage m = .ok out ∧ decodeMessage out = .ok m ∧
      (out.length < 2 ^ 32 →
        (∀ fromNode toNode, ∃ frame, encodeFramed m fromNode toNode = .ok frame ∧
          (∀ rest, decodeFramed (frame ++ rest) = .ok (m, frame.length)) ∧
          ∀ p q d, frame = p ++ q → decodeFramed p = .ok d → q = []) ∧
        ∀ groupId, groupId ≠ 0 → groupId < 2 ^ 64 → ∃ envelope,
          encodeEnvelope groupId m = .ok envelope ∧ decodeEnvelope envelope = .ok (groupId, m) ∧
          ∀ p q d, envelope = p ++ q → decodeEnvelope p = .ok d → q = []) ∧
      ∀ p q m', out = p ++ q → decodeMessage p = .ok m' → q = []) ∧
    ∀ bs m, decodeMessage bs = .ok m → ∃ out, encodeMessage m = .ok out ∧ out.length = bs.length ∧
      ∀ k, bs[k]? ≠ out[k]? → k ∈ booleanBytes m ∧ bs[k]? ≠ some 0 := by
  refine ⟨fun m hm hshort => ?_, fun bs m h => ?_⟩
  · obtain ⟨out, hout⟩ := encodeMessage_of hshort
    refine ⟨out, hout, decodeMessage_encodeMessage hout hm, fun hlen => ⟨?_, ?_⟩, ?_⟩
    · intro fromNode toNode
      obtain ⟨frame, hframe, hread⟩ := decodeFramed_encodeFramed hout hm hlen
      exact ⟨frame, hframe, hread, fun p q d hpq hp => decodeFramed_prefix hframe hpq hp⟩
    · intro groupId hg hg64
      obtain ⟨envelope, henvelope, hread⟩ := decodeEnvelope_encodeEnvelope hg hg64 hout hm hlen
      exact ⟨envelope, henvelope, hread, fun p q d hpq hp => decodeEnvelope_prefix henvelope hpq hp⟩
    · exact fun p q m' hpq hp => decodeMessage_prefix hout hm hpq hp
  · obtain ⟨f, out, hout, hbs, hmeans, -⟩ := decodeMessageAt_ok (decodeMessage_ok h)
    rw [List.append_nil] at hbs
    subst hbs
    exact encodeWith_differs hout hmeans

/-- A message with an entry and a snapshot. -/
theorem round_trip_snapshot : ∃ out,
    encodeMessage { entries := [{ data := [7] }], snapshot := some { data := [8] } } = .ok out ∧
      decodeMessage out = .ok { entries := [{ data := [7] }], snapshot := some { data := [8] } } := by
  obtain ⟨out, hout, hread, -⟩ := round_trip.1
    { entries := [{ data := [7] }], snapshot := some { data := [8] } }
    { dest := by decide, sender := by decide, term := by decide, logTerm := by decide
      index := by decide, commit := by decide, commitTerm := by decide
      requestSnapshot := by decide, rejectHint := by decide, priority := by decide
      entries := by
        intro e he
        rw [List.mem_singleton.mp he]
        exact ⟨by decide, by decide, by decide⟩
      snapshot := by
        rintro s ⟨⟩
        exact ⟨by decide, by decide, ⟨by simp [Fits], by simp [Fits], by simp [Fits], by simp [Fits]⟩⟩ }
    { context := by decide, entries := by decide
      entry := by
        intro e he
        rw [List.mem_singleton.mp he]
        exact ⟨by decide, by decide⟩
      snapshot := by
        rintro s ⟨⟩
        exact ⟨by decide, by decide, by decide, by decide, by decide, by decide⟩ }
  exact ⟨out, hout, hread⟩

end frames

end MessageCodec

end Raftz
