import Mathlib.Tactic.NormNum
import Raftz.Membership

/-! # Membership records survive their encoding

Each reader accepts exactly what the writer of its piece writes, and leaves the
bytes after it.  So a record, or the context of a configuration change, is decoded
from its encoding and from no other bytes (`decode_eq_ok`,
`decodeMembershipContext_eq_ok`). -/

open Base

namespace Raftz

@[simp] theorem length_leBytes (n width : ℕ) : (leBytes n width).length = width := by
  induction width generalizing n with
  | zero => rfl
  | succ width ih => simp [leBytes, ih]

/-- A number that fits is read back from its bytes. -/
theorem ofLeBytes_leBytes {n width : ℕ} (h : n < 256 ^ width) : ofLeBytes (leBytes n width) = n := by
  induction width generalizing n with
  | zero =>
      have h0 : n = 0 := by omega
      rw [h0]
      rfl
  | succ width ih =>
      have hdiv : n / 256 < 256 ^ width := Nat.div_lt_of_lt_mul (by rwa [pow_succ'] at h)
      have hbyte : (UInt8.ofNat (n % 256)).toNat = n % 256 := by
        rw [UInt8.toNat_ofNat']
        omega
      simp only [leBytes, ofLeBytes, ih hdiv, hbyte]
      omega

/-- What is read from a number of bytes fits into them. -/
theorem ofLeBytes_lt (bs : Bytes) : ofLeBytes bs < 256 ^ bs.length := by
  induction bs with
  | nil => exact Nat.one_pos
  | cons b bs ih =>
      have hb : b.toNat < 256 := b.toNat_lt
      simp only [ofLeBytes, List.length_cons, pow_succ]
      omega

/-- The bytes of a number are those it is read from. -/
theorem leBytes_ofLeBytes (bs : Bytes) : leBytes (ofLeBytes bs) bs.length = bs := by
  induction bs with
  | nil => rfl
  | cons b bs ih =>
      have hb : b.toNat < 256 := b.toNat_lt
      have hmod : (b.toNat + 256 * ofLeBytes bs) % 256 = b.toNat := by omega
      have hdiv : (b.toNat + 256 * ofLeBytes bs) / 256 = ofLeBytes bs := by omega
      simp only [ofLeBytes, List.length_cons, leBytes, hmod, hdiv, ih]
      rw [UInt8.ofNat_toNat]

namespace ClusterMembership

/-! ### Readers accept exactly what writers write -/

variable {bs rest : Bytes}

theorem take_eq_ok {n : ℕ} {a : Bytes} :
    take n bs = .ok (a, rest) ↔ bs = a ++ rest ∧ a.length = n := by
  unfold take
  constructor
  · intro h
    split at h
    · cases h
    · cases h
      simp
      omega
  · rintro ⟨rfl, rfl⟩
    simp

theorem readInt_eq_ok {n width : ℕ} :
    readInt width bs = .ok (n, rest) ↔ bs = leBytes n width ++ rest ∧ n < 256 ^ width := by
  unfold readInt
  constructor
  · intro h
    obtain ⟨⟨a, bs'⟩, htake, h⟩ := bind_eq_ok.mp h
    cases h
    obtain ⟨rfl, rfl⟩ := take_eq_ok.mp htake
    rw [leBytes_ofLeBytes]
    exact ⟨rfl, ofLeBytes_lt a⟩
  · rintro ⟨rfl, hn⟩
    refine bind_eq_ok.mpr ⟨(leBytes n width, rest), take_eq_ok.mpr ⟨rfl, length_leBytes n width⟩, ?_⟩
    show Except.ok (ofLeBytes (leBytes n width), rest) = _
    rw [ofLeBytes_leBytes hn]

theorem encodeBytes_eq_ok {a out : Bytes} :
    encodeBytes a = .ok out ↔ a.length < 256 ^ 4 ∧ out = leBytes a.length 4 ++ a := by
  have hbound : a.length < 2 ^ 32 ↔ a.length < 256 ^ 4 := by norm_num
  unfold encodeBytes
  constructor
  · intro h
    obtain ⟨_, hlen, h⟩ := bind_eq_ok.mp h
    cases h
    exact ⟨hbound.mp (ensure_eq_ok.mp hlen), rfl⟩
  · rintro ⟨hlen, rfl⟩
    exact bind_eq_ok.mpr ⟨(), ensure_of (hbound.mpr hlen), rfl⟩

theorem readBytes_eq_ok {a : Bytes} :
    readBytes bs = .ok (a, rest) ↔ ∃ out, encodeBytes a = .ok out ∧ bs = out ++ rest := by
  unfold readBytes
  constructor
  · intro h
    obtain ⟨⟨n, bs'⟩, hint, h⟩ := bind_eq_ok.mp h
    obtain ⟨rfl, rfl⟩ := take_eq_ok.mp h
    obtain ⟨rfl, hn⟩ := readInt_eq_ok.mp hint
    exact ⟨_, encodeBytes_eq_ok.mpr ⟨hn, rfl⟩, (List.append_assoc _ _ _).symm⟩
  · rintro ⟨out, hout, rfl⟩
    obtain ⟨hn, rfl⟩ := encodeBytes_eq_ok.mp hout
    refine bind_eq_ok.mpr ⟨(a.length, a ++ rest), readInt_eq_ok.mpr ⟨List.append_assoc _ _ _, hn⟩, ?_⟩
    exact take_eq_ok.mpr ⟨rfl, rfl⟩

/-- The endpoints are read back, and nothing else is read as them. -/
theorem readPeers_eq_ok {n : ℕ} {ps : List PeerEndpoint} :
    readPeers n bs = .ok (ps, rest) ↔ ∃ out, encodePeers ps = .ok out ∧ bs = out ++ rest ∧
      ps.length = n ∧ ∀ p ∈ ps, p.nodeId < 2 ^ 64 := by
  induction n generalizing bs ps with
  | zero =>
      constructor
      · intro h
        cases h
        exact ⟨[], rfl, rfl, rfl, by simp⟩
      · rintro ⟨out, hout, rfl, hlen, -⟩
        obtain rfl := List.length_eq_zero_iff.mp hlen
        cases hout
        rfl
  | succ n ih =>
      constructor
      · intro h
        obtain ⟨⟨nodeId, bs1⟩, hint, h⟩ := bind_eq_ok.mp h
        obtain ⟨⟨address, bs2⟩, hbytes, h⟩ := bind_eq_ok.mp h
        obtain ⟨⟨ps', bs3⟩, hpeers, h⟩ := bind_eq_ok.mp h
        cases h
        obtain ⟨rfl, hid⟩ := readInt_eq_ok.mp hint
        obtain ⟨out1, hout1, rfl⟩ := readBytes_eq_ok.mp hbytes
        obtain ⟨out2, hout2, rfl, rfl, hids⟩ := ih.mp hpeers
        refine ⟨leBytes nodeId 8 ++ out1 ++ out2, ?_, by simp, by simp, ?_⟩
        · exact bind_eq_ok.mpr ⟨out1, hout1, bind_eq_ok.mpr ⟨out2, hout2, rfl⟩⟩
        · intro p hp
          rcases List.mem_cons.mp hp with rfl | hp
          · exact hid.trans_eq (by norm_num)
          · exact hids p hp
      · rintro ⟨out, hout, rfl, hlen, hids⟩
        obtain ⟨p, ps, rfl⟩ : ∃ p ps', ps = p :: ps' := List.exists_cons_of_length_eq_add_one hlen
        obtain ⟨address, haddress, hout⟩ := bind_eq_ok.mp hout
        obtain ⟨tail, htail, hout⟩ := bind_eq_ok.mp hout
        cases hout
        have hid : p.nodeId < 256 ^ 8 := (hids p List.mem_cons_self).trans_eq (by norm_num)
        have hlen : ps.length = n := by simpa using hlen
        simp only [readPeers, List.append_assoc]
        refine bind_eq_ok.mpr ⟨_, readInt_eq_ok.mpr ⟨rfl, hid⟩, ?_⟩
        refine bind_eq_ok.mpr ⟨_, readBytes_eq_ok.mpr ⟨address, haddress, rfl⟩, ?_⟩
        exact bind_eq_ok.mpr ⟨_, ih.mpr ⟨tail, htail, rfl, hlen,
          fun q hq => hids q (List.mem_cons_of_mem _ hq)⟩, rfl⟩

/-- Every endpoint takes at least twelve bytes. -/
theorem length_encodePeers {ps : List PeerEndpoint} {out : Bytes} (h : encodePeers ps = .ok out) :
    ps.length * 12 ≤ out.length := by
  induction ps generalizing out with
  | nil =>
      cases h
      exact Nat.zero_le _
  | cons p ps ih =>
      obtain ⟨address, haddress, h⟩ := bind_eq_ok.mp h
      obtain ⟨tail, htail, h⟩ := bind_eq_ok.mp h
      cases h
      obtain ⟨-, rfl⟩ := encodeBytes_eq_ok.mp haddress
      have := ih htail
      simp only [List.length_cons, List.length_append, length_leBytes]
      omega

/-- Endpoints with short addresses are written. -/
theorem encodePeers_total {ps : List PeerEndpoint} (h : ∀ p ∈ ps, p.address.length < 2 ^ 32) :
    ∃ out, encodePeers ps = .ok out := by
  induction ps with
  | nil => exact ⟨[], rfl⟩
  | cons p ps ih =>
      obtain ⟨tail, htail⟩ := ih fun q hq => h q (List.mem_cons_of_mem _ hq)
      have hlen : p.address.length < 256 ^ 4 := (h p List.mem_cons_self).trans_eq (by norm_num)
      exact ⟨_, bind_eq_ok.mpr ⟨_, encodeBytes_eq_ok.mpr ⟨hlen, rfl⟩, bind_eq_ok.mpr ⟨tail, htail, rfl⟩⟩⟩

theorem length_flatMap_leBytes (ids : List ℕ) :
    (ids.flatMap fun i => leBytes i 8).length = ids.length * 8 := by
  induction ids with
  | nil => rfl
  | cons i ids ih =>
      rw [List.flatMap_cons, List.length_append, ih, length_leBytes, List.length_cons]
      omega

/-- The ids are read back, and nothing else is read as them. -/
theorem readIds_eq_ok {n : ℕ} {ids : List ℕ} :
    readIds n bs = .ok (ids, rest) ↔ bs = (ids.flatMap fun i => leBytes i 8) ++ rest ∧
      ids.length = n ∧ ∀ i ∈ ids, i < 2 ^ 64 := by
  induction n generalizing bs ids with
  | zero =>
      constructor
      · intro h
        cases h
        exact ⟨rfl, rfl, by simp⟩
      · rintro ⟨rfl, hlen, -⟩
        obtain rfl := List.length_eq_zero_iff.mp hlen
        rfl
  | succ n ih =>
      constructor
      · intro h
        obtain ⟨⟨i, bs1⟩, hint, h⟩ := bind_eq_ok.mp h
        obtain ⟨⟨is, bs2⟩, hids, h⟩ := bind_eq_ok.mp h
        cases h
        obtain ⟨rfl, hi⟩ := readInt_eq_ok.mp hint
        obtain ⟨rfl, rfl, hlt⟩ := ih.mp hids
        refine ⟨by simp, by simp, ?_⟩
        intro j hj
        rcases List.mem_cons.mp hj with rfl | hj
        · exact hi.trans_eq (by norm_num)
        · exact hlt j hj
      · rintro ⟨rfl, hlen, hlt⟩
        obtain ⟨i, is, rfl⟩ : ∃ i is, ids = i :: is := List.exists_cons_of_length_eq_add_one hlen
        have hi : i < 256 ^ 8 := (hlt i List.mem_cons_self).trans_eq (by norm_num)
        have hlen : is.length = n := by simpa using hlen
        simp only [readIds, List.flatMap_cons, List.append_assoc]
        refine bind_eq_ok.mpr ⟨_, readInt_eq_ok.mpr ⟨rfl, hi⟩, ?_⟩
        exact bind_eq_ok.mpr ⟨_, ih.mpr ⟨rfl, hlen, fun j hj => hlt j (List.mem_cons_of_mem _ hj)⟩, rfl⟩

theorem readClusterId_eq_ok {id : ClusterId} :
    readClusterId bs = .ok (id, rest) ↔ bs = id.val ++ rest := by
  unfold readClusterId
  constructor
  · intro h
    split at h
    · cases h
      exact (List.take_append_drop 16 bs).symm
    · cases h
  · rintro rfl
    rw [dif_pos (by simp [id.property])]
    congr 1
    exact Prod.ext (Subtype.ext (List.take_left' id.property)) (List.drop_left' id.property)

/-! ### Records -/

/-- All ids of the record are 64-bit numbers. -/
structure Bounded (m : ClusterMembership) : Prop where
  peers : ∀ p ∈ m.peers, p.nodeId < 2 ^ 64
  retired : ∀ i ∈ m.retiredNodeIds, i < 2 ^ 64

/-- The bytes of a record whose endpoints are written as `peers`. -/
def layout (m : ClusterMembership) (peers : Bytes) : Bytes :=
  magic ++ leBytes version 4 ++ m.clusterId.val ++ leBytes m.peers.length 4 ++ peers ++
    leBytes m.retiredNodeIds.length 4 ++ m.retiredNodeIds.flatMap fun i => leBytes i 8

/-- The record is written as `out`; it need not be well formed. -/
def Written (m : ClusterMembership) (out : Bytes) : Prop :=
  m.Bounded ∧ m.peers.length < 256 ^ 4 ∧ m.retiredNodeIds.length < 256 ^ 4 ∧
    ∃ peers, encodePeers m.peers = .ok peers ∧ out = m.layout peers

/-- What `decode` reads before it looks at the end of the bytes. -/
def readRecord (bytes : Bytes) : Except MembershipError (ClusterMembership × Bytes) := do
  let (m, bs) ← take 4 bytes
  ensure (m = magic) .invalidMagic
  let (v, bs) ← readInt 4 bs
  ensure (v = version) .unsupportedVersion
  let (clusterId, bs) ← readClusterId bs
  let (peerCount, bs) ← readInt 4 bs
  ensure (peerCount * 12 + 4 ≤ bs.length) .truncatedData
  let (peers, bs) ← readPeers peerCount bs
  let (retiredCount, bs) ← readInt 4 bs
  ensure (retiredCount * 8 ≤ bs.length) .truncatedData
  let (retired, bs) ← readIds retiredCount bs
  return (⟨clusterId, peers, retired⟩, bs)

theorem readRecord_eq_ok {m : ClusterMembership} :
    readRecord bs = .ok (m, rest) ↔ ∃ out, m.Written out ∧ bs = out ++ rest := by
  constructor
  · intro h
    obtain ⟨⟨mag, bs1⟩, h1, h⟩ := bind_eq_ok.mp h
    obtain ⟨_, hmagic, h⟩ := bind_eq_ok.mp h
    obtain ⟨⟨v, bs2⟩, h2, h⟩ := bind_eq_ok.mp h
    obtain ⟨_, hversion, h⟩ := bind_eq_ok.mp h
    obtain ⟨⟨id, bs3⟩, h3, h⟩ := bind_eq_ok.mp h
    obtain ⟨⟨peerCount, bs4⟩, h4, h⟩ := bind_eq_ok.mp h
    obtain ⟨_, -, h⟩ := bind_eq_ok.mp h
    obtain ⟨⟨peers, bs5⟩, h5, h⟩ := bind_eq_ok.mp h
    obtain ⟨⟨retiredCount, bs6⟩, h6, h⟩ := bind_eq_ok.mp h
    obtain ⟨_, -, h⟩ := bind_eq_ok.mp h
    obtain ⟨⟨retired, bs7⟩, h7, h⟩ := bind_eq_ok.mp h
    cases h
    obtain rfl := ensure_eq_ok.mp hmagic
    obtain rfl := ensure_eq_ok.mp hversion
    obtain ⟨rfl, -⟩ := take_eq_ok.mp h1
    obtain ⟨rfl, -⟩ := readInt_eq_ok.mp h2
    obtain rfl := readClusterId_eq_ok.mp h3
    obtain ⟨rfl, hp⟩ := readInt_eq_ok.mp h4
    obtain ⟨out, hout, rfl, rfl, hpeers⟩ := readPeers_eq_ok.mp h5
    obtain ⟨rfl, hr⟩ := readInt_eq_ok.mp h6
    obtain ⟨rfl, rfl, hretired⟩ := readIds_eq_ok.mp h7
    exact ⟨_, ⟨⟨hpeers, hretired⟩, hp, hr, out, hout, rfl⟩, by simp [layout]⟩
  · rintro ⟨_, ⟨hm, hp, hr, peers, hpeers, rfl⟩, rfl⟩
    have hsize := length_encodePeers hpeers
    have hids := length_flatMap_leBytes m.retiredNodeIds
    simp only [layout, List.append_assoc]
    refine bind_eq_ok.mpr ⟨_, take_eq_ok.mpr ⟨rfl, rfl⟩, ?_⟩
    refine bind_eq_ok.mpr ⟨(), ensure_of rfl, ?_⟩
    refine bind_eq_ok.mpr ⟨_, readInt_eq_ok.mpr ⟨rfl, by decide⟩, ?_⟩
    refine bind_eq_ok.mpr ⟨(), ensure_of rfl, ?_⟩
    refine bind_eq_ok.mpr ⟨_, readClusterId_eq_ok.mpr rfl, ?_⟩
    refine bind_eq_ok.mpr ⟨_, readInt_eq_ok.mpr ⟨rfl, hp⟩, ?_⟩
    refine bind_eq_ok.mpr ⟨(), ensure_of ?_, ?_⟩
    · simp only [List.length_append, length_leBytes]
      omega
    refine bind_eq_ok.mpr ⟨_, readPeers_eq_ok.mpr ⟨peers, hpeers, rfl, rfl, hm.peers⟩, ?_⟩
    refine bind_eq_ok.mpr ⟨_, readInt_eq_ok.mpr ⟨rfl, hr⟩, ?_⟩
    refine bind_eq_ok.mpr ⟨(), ensure_of ?_, ?_⟩
    · simp only [List.length_append]
      omega
    exact bind_eq_ok.mpr ⟨_, readIds_eq_ok.mpr ⟨rfl, rfl, hm.retired⟩, rfl⟩

/-- A record is what is read, when nothing follows and it is well formed. -/
theorem decode_eq_bind (bs : Bytes) : decode bs = readRecord bs >>= fun r => do
    ensure (r.2 = []) .trailingData
    r.1.validateStructure
    return r.1 := by
  unfold decode readRecord
  simp only [bind_assoc]
  rfl

theorem decode_eq_readRecord {m : ClusterMembership} :
    decode bs = .ok m ↔ readRecord bs = .ok (m, []) ∧ m.validateStructure = .ok () := by
  rw [decode_eq_bind]
  constructor
  · intro h
    obtain ⟨⟨m', rest⟩, hread, h⟩ := bind_eq_ok.mp h
    obtain ⟨_, hend, h⟩ := bind_eq_ok.mp h
    obtain ⟨_, hvalid, h⟩ := bind_eq_ok.mp h
    cases h
    obtain rfl := ensure_eq_ok.mp hend
    exact ⟨hread, hvalid⟩
  · rintro ⟨hread, hvalid⟩
    exact bind_eq_ok.mpr ⟨_, hread, bind_eq_ok.mpr ⟨(), ensure_of rfl, bind_eq_ok.mpr ⟨(), hvalid, rfl⟩⟩⟩

theorem encode_eq_ok {m : ClusterMembership} {out : Bytes} (hm : m.Bounded) :
    m.encode = .ok out ↔ m.Written out ∧ m.validateStructure = .ok () := by
  have hbound : ∀ n : ℕ, n < 2 ^ 32 ↔ n < 256 ^ 4 := by norm_num
  constructor
  · intro h
    obtain ⟨_, hvalid, h⟩ := bind_eq_ok.mp h
    obtain ⟨_, hp, h⟩ := bind_eq_ok.mp h
    obtain ⟨peers, hpeers, h⟩ := bind_eq_ok.mp h
    obtain ⟨_, hr, h⟩ := bind_eq_ok.mp h
    cases h
    exact ⟨⟨hm, (hbound _).mp (ensure_eq_ok.mp hp), (hbound _).mp (ensure_eq_ok.mp hr), peers, hpeers, rfl⟩,
      hvalid⟩
  · rintro ⟨⟨-, hp, hr, peers, hpeers, rfl⟩, hvalid⟩
    refine bind_eq_ok.mpr ⟨(), hvalid, bind_eq_ok.mpr ⟨(), ensure_of ((hbound _).mpr hp), ?_⟩⟩
    exact bind_eq_ok.mpr ⟨peers, hpeers, bind_eq_ok.mpr ⟨(), ensure_of ((hbound _).mpr hr), rfl⟩⟩

/-- **A record is decoded from its encoding and from nothing else.** -/
theorem decode_eq_ok {m : ClusterMembership} : decode bs = .ok m ↔ m.Bounded ∧ m.encode = .ok bs := by
  rw [decode_eq_readRecord, readRecord_eq_ok]
  constructor
  · rintro ⟨⟨out, hout, heq⟩, hvalid⟩
    rw [List.append_nil] at heq
    subst heq
    exact ⟨hout.1, (encode_eq_ok hout.1).mpr ⟨hout, hvalid⟩⟩
  · rintro ⟨hm, h⟩
    obtain ⟨hout, hvalid⟩ := (encode_eq_ok hm).mp h
    exact ⟨⟨bs, hout, (List.append_nil bs).symm⟩, hvalid⟩

theorem decode_encode {m : ClusterMembership} {out : Bytes} (hm : m.Bounded) (h : m.encode = .ok out) :
    decode out = .ok m := decode_eq_ok.mpr ⟨hm, h⟩

/-- A record is the only one to start where it starts. -/
theorem decode_prefix_free {m m' : ClusterMembership} {p t : Bytes} (h : decode p = .ok m)
    (h' : decode (p ++ t) = .ok m') : t = [] := by
  obtain ⟨hread, -⟩ := decode_eq_readRecord.mp h
  obtain ⟨out, hout, heq⟩ := readRecord_eq_ok.mp hread
  rw [List.append_nil] at heq
  subst heq
  have hlong : readRecord (p ++ t) = .ok (m, t) := readRecord_eq_ok.mpr ⟨p, hout, rfl⟩
  obtain ⟨hread', -⟩ := decode_eq_readRecord.mp h'
  cases hlong.symm.trans hread'
  rfl

/-- Every well-formed record with short lists and addresses is written. -/
theorem encode_total {m : ClusterMembership} (hvalid : m.validateStructure = .ok ())
    (hp : m.peers.length < 2 ^ 32) (ha : ∀ p ∈ m.peers, p.address.length < 2 ^ 32)
    (hr : m.retiredNodeIds.length < 2 ^ 32) : ∃ out, m.encode = .ok out := by
  obtain ⟨peers, hpeers⟩ := encodePeers_total ha
  exact ⟨m.layout peers, bind_eq_ok.mpr ⟨(), hvalid, bind_eq_ok.mpr ⟨(), ensure_of hp,
    bind_eq_ok.mpr ⟨peers, hpeers, bind_eq_ok.mpr ⟨(), ensure_of hr, rfl⟩⟩⟩⟩⟩

/-! ### Contexts -/

/-- The endpoints of a context are written as `out`. -/
def ContextWritten (ps : List PeerEndpoint) (out : Bytes) : Prop :=
  (∀ p ∈ ps, p.nodeId < 2 ^ 64) ∧ ps.length < 256 ^ 4 ∧ ∃ peers, encodePeers ps = .ok peers ∧
    out = contextMagic ++ leBytes contextVersion 4 ++ leBytes ps.length 4 ++ peers

/-- What `decodeMembershipContext` reads before it looks at the end of the bytes. -/
def readContext (bytes : Bytes) : Except MembershipError (List PeerEndpoint × Bytes) := do
  let (m, bs) ← take 4 bytes
  ensure (m = contextMagic) .invalidMagic
  let (v, bs) ← readInt 4 bs
  ensure (v = contextVersion) .unsupportedVersion
  let (count, bs) ← readInt 4 bs
  ensure (count * 12 ≤ bs.length) .truncatedData
  readPeers count bs

theorem readContext_eq_ok {ps : List PeerEndpoint} :
    readContext bs = .ok (ps, rest) ↔ ∃ out, ContextWritten ps out ∧ bs = out ++ rest := by
  constructor
  · intro h
    obtain ⟨⟨mag, bs1⟩, h1, h⟩ := bind_eq_ok.mp h
    obtain ⟨_, hmagic, h⟩ := bind_eq_ok.mp h
    obtain ⟨⟨v, bs2⟩, h2, h⟩ := bind_eq_ok.mp h
    obtain ⟨_, hversion, h⟩ := bind_eq_ok.mp h
    obtain ⟨⟨count, bs3⟩, h3, h⟩ := bind_eq_ok.mp h
    obtain ⟨_, -, hpeers⟩ := bind_eq_ok.mp h
    obtain rfl := ensure_eq_ok.mp hmagic
    obtain rfl := ensure_eq_ok.mp hversion
    obtain ⟨rfl, -⟩ := take_eq_ok.mp h1
    obtain ⟨rfl, -⟩ := readInt_eq_ok.mp h2
    obtain ⟨rfl, hn⟩ := readInt_eq_ok.mp h3
    obtain ⟨out, hout, rfl, rfl, hids⟩ := readPeers_eq_ok.mp hpeers
    exact ⟨_, ⟨hids, hn, out, hout, rfl⟩, by simp⟩
  · rintro ⟨_, ⟨hids, hn, peers, hpeers, rfl⟩, rfl⟩
    have hsize := length_encodePeers hpeers
    simp only [List.append_assoc]
    refine bind_eq_ok.mpr ⟨_, take_eq_ok.mpr ⟨rfl, rfl⟩, ?_⟩
    refine bind_eq_ok.mpr ⟨(), ensure_of rfl, ?_⟩
    refine bind_eq_ok.mpr ⟨_, readInt_eq_ok.mpr ⟨rfl, by decide⟩, ?_⟩
    refine bind_eq_ok.mpr ⟨(), ensure_of rfl, ?_⟩
    refine bind_eq_ok.mpr ⟨_, readInt_eq_ok.mpr ⟨rfl, hn⟩, ?_⟩
    refine bind_eq_ok.mpr ⟨(), ensure_of ?_, ?_⟩
    · simp only [List.length_append]
      omega
    exact readPeers_eq_ok.mpr ⟨peers, hpeers, rfl, rfl, hids⟩

theorem decodeMembershipContext_eq_bind (bs : Bytes) :
    decodeMembershipContext bs = readContext bs >>= fun r => do
      ensure (r.2 = []) .trailingData
      validateEndpoints none r.1
      return r.1 := by
  unfold decodeMembershipContext readContext
  simp only [bind_assoc]

theorem decodeMembershipContext_eq_readContext {ps : List PeerEndpoint} :
    decodeMembershipContext bs = .ok ps ↔
      readContext bs = .ok (ps, []) ∧ validateEndpoints none ps = .ok () := by
  rw [decodeMembershipContext_eq_bind]
  constructor
  · intro h
    obtain ⟨⟨ps', rest⟩, hread, h⟩ := bind_eq_ok.mp h
    obtain ⟨_, hend, h⟩ := bind_eq_ok.mp h
    obtain ⟨_, hvalid, h⟩ := bind_eq_ok.mp h
    cases h
    obtain rfl := ensure_eq_ok.mp hend
    exact ⟨hread, hvalid⟩
  · rintro ⟨hread, hvalid⟩
    exact bind_eq_ok.mpr ⟨_, hread, bind_eq_ok.mpr ⟨(), ensure_of rfl, bind_eq_ok.mpr ⟨(), hvalid, rfl⟩⟩⟩

theorem encodeMembershipContext_eq_ok {ps : List PeerEndpoint} {out : Bytes}
    (hids : ∀ p ∈ ps, p.nodeId < 2 ^ 64) :
    encodeMembershipContext ps = .ok out ↔ ContextWritten ps out ∧ validateEndpoints none ps = .ok () := by
  have hbound : ∀ n : ℕ, n < 2 ^ 32 ↔ n < 256 ^ 4 := by norm_num
  constructor
  · intro h
    obtain ⟨_, hvalid, h⟩ := bind_eq_ok.mp h
    obtain ⟨_, hn, h⟩ := bind_eq_ok.mp h
    obtain ⟨peers, hpeers, h⟩ := bind_eq_ok.mp h
    cases h
    exact ⟨⟨hids, (hbound _).mp (ensure_eq_ok.mp hn), peers, hpeers, rfl⟩, hvalid⟩
  · rintro ⟨⟨-, hn, peers, hpeers, rfl⟩, hvalid⟩
    refine bind_eq_ok.mpr ⟨(), hvalid, bind_eq_ok.mpr ⟨(), ensure_of ((hbound _).mpr hn), ?_⟩⟩
    exact bind_eq_ok.mpr ⟨peers, hpeers, rfl⟩

/-- **A context is decoded from its encoding and from nothing else.** -/
theorem decodeMembershipContext_eq_ok {ps : List PeerEndpoint} :
    decodeMembershipContext bs = .ok ps ↔
      (∀ p ∈ ps, p.nodeId < 2 ^ 64) ∧ encodeMembershipContext ps = .ok bs := by
  rw [decodeMembershipContext_eq_readContext, readContext_eq_ok]
  constructor
  · rintro ⟨⟨out, hout, heq⟩, hvalid⟩
    rw [List.append_nil] at heq
    subst heq
    exact ⟨hout.1, (encodeMembershipContext_eq_ok hout.1).mpr ⟨hout, hvalid⟩⟩
  · rintro ⟨hids, h⟩
    obtain ⟨hout, hvalid⟩ := (encodeMembershipContext_eq_ok hids).mp h
    exact ⟨⟨bs, hout, (List.append_nil bs).symm⟩, hvalid⟩

theorem decodeMembershipContext_prefix_free {ps ps' : List PeerEndpoint} {p t : Bytes}
    (h : decodeMembershipContext p = .ok ps) (h' : decodeMembershipContext (p ++ t) = .ok ps') : t = [] := by
  obtain ⟨hread, -⟩ := decodeMembershipContext_eq_readContext.mp h
  obtain ⟨out, hout, heq⟩ := readContext_eq_ok.mp hread
  rw [List.append_nil] at heq
  subst heq
  have hlong : readContext (p ++ t) = .ok (ps, t) := readContext_eq_ok.mpr ⟨p, hout, rfl⟩
  obtain ⟨hread', -⟩ := decodeMembershipContext_eq_readContext.mp h'
  cases hlong.symm.trans hread'
  rfl

theorem encodeMembershipContext_total {ps : List PeerEndpoint} (hvalid : validateEndpoints none ps = .ok ())
    (hn : ps.length < 2 ^ 32) (ha : ∀ p ∈ ps, p.address.length < 2 ^ 32) :
    ∃ out, encodeMembershipContext ps = .ok out := by
  obtain ⟨peers, hpeers⟩ := encodePeers_total ha
  exact ⟨_, bind_eq_ok.mpr ⟨(), hvalid, bind_eq_ok.mpr ⟨(), ensure_of hn, bind_eq_ok.mpr ⟨peers, hpeers, rfl⟩⟩⟩⟩

/-- **The codecs of records and contexts are bijections onto the valid values.**  A valid value with
short lists and addresses is decoded from its encoding, a decoded value is valid and encoded by the
bytes it was decoded from, no proper prefix of an encoding is decoded, and an invalid value is not
encoded. -/
theorem membership_bijection :
    ((∀ m : ClusterMembership, m.Bounded → m.validateStructure = .ok () → m.peers.length < 2 ^ 32 →
        (∀ p ∈ m.peers, p.address.length < 2 ^ 32) → m.retiredNodeIds.length < 2 ^ 32 →
        ∃ out, m.encode = .ok out ∧ decode out = .ok m) ∧
      (∀ bs m, decode bs = .ok m → m.encode = .ok bs ∧ m.validateStructure = .ok () ∧ m.Bounded) ∧
      (∀ m : ClusterMembership, m.Bounded → ∀ p t, m.encode = .ok (p ++ t) → t ≠ [] →
        ∀ m', decode p ≠ .ok m') ∧
      ∀ m : ClusterMembership, m.validateStructure ≠ .ok () → ∀ out, m.encode ≠ .ok out) ∧
    (∀ ps : List PeerEndpoint, (∀ p ∈ ps, p.nodeId < 2 ^ 64) → validateEndpoints none ps = .ok () →
        ps.length < 2 ^ 32 → (∀ p ∈ ps, p.address.length < 2 ^ 32) →
        ∃ out, encodeMembershipContext ps = .ok out ∧ decodeMembershipContext out = .ok ps) ∧
      (∀ bs ps, decodeMembershipContext bs = .ok ps → encodeMembershipContext ps = .ok bs ∧
        validateEndpoints none ps = .ok () ∧ ∀ p ∈ ps, p.nodeId < 2 ^ 64) ∧
      (∀ ps : List PeerEndpoint, (∀ p ∈ ps, p.nodeId < 2 ^ 64) → ∀ p t,
        encodeMembershipContext ps = .ok (p ++ t) → t ≠ [] → ∀ ps', decodeMembershipContext p ≠ .ok ps') ∧
      ∀ ps : List PeerEndpoint, validateEndpoints none ps ≠ .ok () → ∀ out,
        encodeMembershipContext ps ≠ .ok out := by
  refine ⟨⟨?_, ?_, ?_, ?_⟩, ?_, ?_, ?_, ?_⟩
  · intro m hm hvalid hp ha hr
    obtain ⟨out, hout⟩ := encode_total hvalid hp ha hr
    exact ⟨out, hout, decode_encode hm hout⟩
  · intro bs m h
    obtain ⟨hm, hout⟩ := decode_eq_ok.mp h
    exact ⟨hout, (decode_eq_readRecord.mp h).2, hm⟩
  · intro m hm p t hout ht m' h
    exact ht (decode_prefix_free h (decode_encode hm hout))
  · intro m hinvalid out hout
    obtain ⟨_, hvalid, -⟩ := bind_eq_ok.mp hout
    exact hinvalid hvalid
  · intro ps hids hvalid hn ha
    obtain ⟨out, hout⟩ := encodeMembershipContext_total hvalid hn ha
    exact ⟨out, hout, decodeMembershipContext_eq_ok.mpr ⟨hids, hout⟩⟩
  · intro bs ps h
    obtain ⟨hids, hout⟩ := decodeMembershipContext_eq_ok.mp h
    exact ⟨hout, (decodeMembershipContext_eq_readContext.mp h).2, hids⟩
  · intro ps hids p t hout ht ps' h
    exact ht (decodeMembershipContext_prefix_free h (decodeMembershipContext_eq_ok.mpr ⟨hids, hout⟩))
  · intro ps hinvalid out hout
    obtain ⟨_, hvalid, -⟩ := bind_eq_ok.mp hout
    exact hinvalid hvalid

end ClusterMembership

end Raftz
