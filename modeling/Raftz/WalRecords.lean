import Raftz.MembershipCodec

/-! # The records of a segment

`buildRecord`, `parseRecord`, `recordTotalSize` and the scan of `recover` in
`wal.zig`, on bytes.  A record is a header of sixteen bytes, the payload, and
padding to a multiple of eight; its checksum covers everything but itself and the
padding, and is an arbitrary function here.

The builder and the two readers agree on the size of a record
(`recordTotalSize_recordBytes`), so the scan of a segment takes its records one by
one and stops at the first that is not whole (`scan_whole`, `scan_torn`). -/

open Base

namespace Raftz

/-- What is wrong with a file of the log. -/
inductive WalErr
  | recordTooLarge
  | incompleteRecord
  | corruptEntryRecord
  | entryParseError
  | hardStateParseError
  | snapshotParseError
  | confStateParseError
  | metadataCorrupt
  | fatal
  deriving DecidableEq, Repr

/-- The little-endian number of `width` bytes at an offset. -/
def intAt (data : Bytes) (offset width : ℕ) : ℕ := ofLeBytes ((data.drop offset).take width)

theorem intAt_append_leBytes {a rest : Bytes} {n offset width : ℕ} (ho : a.length = offset)
    (hn : n < 256 ^ width) : intAt (a ++ (leBytes n width ++ rest)) offset width = n := by
  subst ho
  simp [intAt, List.take_left', ofLeBytes_leBytes hn]

/-- Kind of a record. -/
inductive RecordType
  | entry
  | hardState
  | confState
  | snapshot
  deriving DecidableEq, Repr

namespace RecordType

/-- Numeric value in the header. -/
def toByte : RecordType → UInt8
  | .entry => 1
  | .hardState => 3
  | .confState => 4
  | .snapshot => 5

/-- The kind with a numeric value. -/
def ofByte (b : UInt8) : Option RecordType :=
  if b = 1 then some .entry else if b = 3 then some .hardState
  else if b = 4 then some .confState else if b = 5 then some .snapshot else none

@[simp] theorem ofByte_toByte (t : RecordType) : ofByte t.toByte = some t := by
  cases t <;> decide

end RecordType

/-- A record as it was found; the payload is empty unless it is valid. -/
structure ParsedRecord where
  recordType : RecordType
  payload : Bytes
  valid : Bool
  deriving DecidableEq, Repr

namespace WalRecords

/-- Size of the header of a record. -/
def recordHeaderSize : ℕ := 16

/-- Padding to a multiple of eight bytes. -/
def calcPadding (payloadLen : ℕ) : ℕ := if payloadLen % 8 = 0 then 0 else 8 - payloadLen % 8

section records
variable (crc : Bytes → UInt32)

/-- What the checksum covers: type, flags, reserved bytes, length, padding and payload. -/
def checked (t : RecordType) (payload : Bytes) : Bytes :=
  [t.toByte, 0, 0, 0] ++ (leBytes payload.length 4 ++ (leBytes (calcPadding payload.length) 4 ++ payload))

/-- The bytes of a record. -/
def recordBytes (t : RecordType) (payload : Bytes) : Bytes :=
  leBytes (crc (checked t payload)).toNat 4 ++
    (checked t payload ++ List.replicate (calcPadding payload.length) 0)

/-- Build a record; its length must fit into four bytes. -/
def buildRecord (t : RecordType) (payload : Bytes) : Except WalErr Bytes := do
  ensure (payload.length < 2 ^ 32) .recordTooLarge
  return recordBytes crc t payload

/-- Parse the record at the start of the data. -/
def parseRecord (data : Bytes) : ParsedRecord :=
  let invalid : ParsedRecord := ⟨.entry, [], false⟩
  if data.length < recordHeaderSize then invalid
  else
    let storedCrc := intAt data 0 4
    let length := intAt data 8 4
    let padding := intAt data 12 4
    if 7 < padding ∨ padding ≠ calcPadding length then invalid
    else if data.length < recordHeaderSize + length + padding then invalid
    else
      match RecordType.ofByte (data.getD 4 0) with
      | none => invalid
      | some recordType =>
          let payload := (data.drop 16).take length
          if (crc ((data.drop 4).take 12 ++ payload)).toNat ≠ storedCrc then invalid
          else ⟨recordType, payload, true⟩

/-- Length of the record at the start of the data. -/
def recordTotalSize (data : Bytes) : Except WalErr ℕ := do
  ensure (recordHeaderSize ≤ data.length) .incompleteRecord
  ensure ((RecordType.ofByte (data.getD 4 0)).isSome) .corruptEntryRecord
  let length := intAt data 8 4
  let padding := intAt data 12 4
  ensure (¬ (7 < padding ∨ padding ≠ calcPadding length)) .corruptEntryRecord
  ensure (recordHeaderSize + length + padding ≤ data.length) .incompleteRecord
  return recordHeaderSize + length + padding

end records

/-! ### The size of a record -/

theorem calcPadding_lt (n : ℕ) : calcPadding n < 8 := by
  unfold calcPadding
  split <;> omega

/-- Records are aligned to eight bytes. -/
theorem calcPadding_aligned (n : ℕ) : (recordHeaderSize + n + calcPadding n) % 8 = 0 := by
  unfold calcPadding recordHeaderSize
  split <;> omega

variable {crc : Bytes → UInt32} {t : RecordType} {payload rest : Bytes}

@[simp] theorem length_checked (t : RecordType) (payload : Bytes) :
    (checked t payload).length = 12 + payload.length := by
  simp [checked]
  omega

theorem length_recordBytes (crc : Bytes → UInt32) (t : RecordType) (payload : Bytes) :
    (recordBytes crc t payload).length = recordHeaderSize + payload.length + calcPadding payload.length := by
  simp [recordBytes, recordHeaderSize]
  omega

/-- The fields of a header, whatever follows it. -/
structure Header (data : Bytes) (crcValue : ℕ) (t : RecordType) (n : ℕ) : Prop where
  size : recordHeaderSize ≤ data.length
  crc : intAt data 0 4 = crcValue
  kind : RecordType.ofByte (data.getD 4 0) = some t
  length : intAt data 8 4 = n
  padding : intAt data 12 4 = calcPadding n

/-- The sixteen bytes of a header. -/
def headerBytes (crcValue : ℕ) (t : RecordType) (length : ℕ) : Bytes :=
  leBytes crcValue 4 ++ ([t.toByte, 0, 0, 0] ++ (leBytes length 4 ++ leBytes (calcPadding length) 4))

@[simp] theorem length_headerBytes (c : ℕ) (t : RecordType) (n : ℕ) :
    (headerBytes c t n).length = recordHeaderSize := by
  simp [headerBytes, recordHeaderSize]

theorem header_headerBytes {c n : ℕ} (hc : c < 256 ^ 4) (hn : n < 256 ^ 4) (t : RecordType) (rest : Bytes) :
    Header (headerBytes c t n ++ rest) c t n := by
  have hpad : calcPadding n < 256 ^ 4 := (calcPadding_lt n).trans (by norm_num)
  have hlen : (leBytes c 4).length = 4 := length_leBytes c 4
  refine ⟨by simp, ?_, ?_, ?_, ?_⟩
  · have h := @intAt_append_leBytes [] ([t.toByte, 0, 0, 0] ++ (leBytes n 4 ++
      (leBytes (calcPadding n) 4 ++ rest))) c 0 4 rfl hc
    simpa [headerBytes] using h
  · have h : (headerBytes c t n ++ rest).getD 4 0 = t.toByte := by
      simp [headerBytes, List.getD_eq_getElem?_getD]
    rw [h, RecordType.ofByte_toByte]
  · have h := @intAt_append_leBytes (leBytes c 4 ++ [t.toByte, 0, 0, 0])
      (leBytes (calcPadding n) 4 ++ rest) n 8 4 (by simp) hn
    simpa [headerBytes] using h
  · have h := @intAt_append_leBytes (leBytes c 4 ++ ([t.toByte, 0, 0, 0] ++ leBytes n 4)) rest
      (calcPadding n) 12 4 (by simp) hpad
    simpa [headerBytes] using h

theorem recordBytes_eq (crc : Bytes → UInt32) (t : RecordType) (payload : Bytes) :
    recordBytes crc t payload = headerBytes (crc (checked t payload)).toNat t payload.length ++
      (payload ++ List.replicate (calcPadding payload.length) 0) := by
  simp [recordBytes, headerBytes, checked]

/-- The size is read off the header, if the data is long enough. -/
theorem recordTotalSize_of_header {data : Bytes} {c n : ℕ} (h : Header data c t n) :
    recordTotalSize data = if recordHeaderSize + n + calcPadding n ≤ data.length then
      .ok (recordHeaderSize + n + calcPadding n) else .error .incompleteRecord := by
  have hpad := calcPadding_lt n
  have hkind : (RecordType.ofByte (data.getD 4 0)).isSome := by rw [h.kind, Option.isSome_some]
  have hplain : ¬ (7 < intAt data 12 4 ∨ intAt data 12 4 ≠ calcPadding (intAt data 8 4)) := by
    rw [h.padding, h.length]
    omega
  unfold recordTotalSize
  dsimp only
  rw [ensure_of h.size, ensure_of hkind, ensure_of hplain, h.padding, h.length]
  by_cases hle : recordHeaderSize + n + calcPadding n ≤ data.length
  · rw [ensure_of hle, if_pos hle]
    rfl
  · rw [ensure_of_not hle, if_neg hle]
    rfl

/-- A record that is whole is measured, whatever follows it. -/
theorem recordTotalSize_recordBytes (crc : Bytes → UInt32) (t : RecordType)
    (hp : payload.length < 256 ^ 4) (rest : Bytes) :
    recordTotalSize (recordBytes crc t payload ++ rest) = .ok (recordBytes crc t payload).length := by
  have hc : (crc (checked t payload)).toNat < 256 ^ 4 := (crc (checked t payload)).toNat_lt
  have hh := header_headerBytes hc hp t (payload ++ List.replicate (calcPadding payload.length) 0 ++ rest)
  rw [← List.append_assoc, ← recordBytes_eq] at hh
  rw [recordTotalSize_of_header hh, if_pos, length_recordBytes]
  rw [List.length_append, length_recordBytes]
  omega

/-- A record that is cut short is found to be. -/
theorem recordTotalSize_prefix (crc : Bytes → UInt32) (t : RecordType) (hp : payload.length < 256 ^ 4)
    {tail more : Bytes} (h : recordBytes crc t payload = tail ++ more) (hm : more ≠ []) :
    recordTotalSize tail = .error .incompleteRecord := by
  have hc : (crc (checked t payload)).toNat < 256 ^ 4 := (crc (checked t payload)).toNat_lt
  have hlen : tail.length + more.length = recordHeaderSize + payload.length + calcPadding payload.length := by
    rw [← length_recordBytes crc t payload, h, List.length_append]
  have hpos := List.length_pos_iff.mpr hm
  by_cases hshort : recordHeaderSize ≤ tail.length
  · -- the header is there, and asks for more than there is
    have hhead : tail.take recordHeaderSize = headerBytes (crc (checked t payload)).toNat t payload.length := by
      have htake := congrArg (List.take recordHeaderSize) h
      rw [List.take_append_of_le_length hshort, recordBytes_eq,
        List.take_left' (length_headerBytes _ _ _)] at htake
      exact htake.symm
    have hh := header_headerBytes hc hp t (tail.drop recordHeaderSize)
    rw [← hhead, List.take_append_drop] at hh
    rw [recordTotalSize_of_header hh, if_neg (by omega)]
  · unfold recordTotalSize
    rw [ensure_of_not hshort]
    rfl

/-- A record that is whole is parsed. -/
theorem parseRecord_recordBytes (crc : Bytes → UInt32) (t : RecordType) (hp : payload.length < 256 ^ 4) :
    parseRecord crc (recordBytes crc t payload) = ⟨t, payload, true⟩ := by
  have hc : (crc (checked t payload)).toNat < 256 ^ 4 := (crc (checked t payload)).toNat_lt
  have hh := header_headerBytes hc hp t (payload ++ List.replicate (calcPadding payload.length) 0)
  rw [← recordBytes_eq] at hh
  have hlen := length_recordBytes crc t payload
  have hpad := calcPadding_lt payload.length
  have hsize : ¬ (recordBytes crc t payload).length < recordHeaderSize := by omega
  have hplain : ¬ 7 < calcPadding payload.length := by omega
  have henough : ¬ (recordBytes crc t payload).length <
      recordHeaderSize + payload.length + calcPadding payload.length := by omega
  have hdrop : (recordBytes crc t payload).drop 16 =
      payload ++ List.replicate (calcPadding payload.length) 0 := by
    rw [recordBytes_eq]
    exact List.drop_left' (length_headerBytes _ _ _)
  have hpayload : ((recordBytes crc t payload).drop 16).take payload.length = payload := by
    rw [hdrop, List.take_left]
  have hcovered : ((recordBytes crc t payload).drop 4).take 12 ++ payload = checked t payload := by
    have hfields : checked t payload = ([t.toByte, 0, 0, 0] ++ leBytes payload.length 4 ++
        leBytes (calcPadding payload.length) 4) ++ payload := by simp [checked]
    unfold recordBytes
    rw [List.drop_left' (length_leBytes _ 4), hfields, List.append_assoc, List.take_left' (by simp)]
  unfold parseRecord
  simp only [hsize, hh.crc, hh.kind, hh.length, hh.padding, hplain, henough, hpayload, hcovered, if_false,
    ne_eq, not_true_eq_false, or_self]

/-! ### The scan -/

/-- A record of a segment. -/
structure WalRecord where
  recordType : RecordType
  payload : Bytes
  deriving DecidableEq, Repr

/-- The lengths of records fit into four bytes. -/
def Short (r : WalRecord) : Prop := r.payload.length < 2 ^ 32

section scan
variable (crc : Bytes → UInt32) {σ : Type} (repairable : Bool)
  (handle : σ → WalRecord → ℕ → ℕ → Except WalErr σ)

/-- Scan the records of a segment from an offset of its body on.  `handle` is given each record with
its offset and size.  A damaged tail is an error, or, when it may be repaired, is cut off; the
result is what the records were made into and where the body was cut.  `fuel` bounds the number of
records. -/
def scanFrom : ℕ → Bytes → ℕ → σ → Option (Except WalErr (σ × Option ℕ))
  | 0, _, _, _ => none
  | fuel + 1, data, offset, s =>
      if data = [] then some (.ok (s, none))
      else
        match recordTotalSize data with
        | .error e =>
            if repairable then some (.ok (s, some offset))
            else some (.error (if e = .incompleteRecord then .corruptEntryRecord else e))
        | .ok total =>
            let parsed := parseRecord crc (data.take total)
            if parsed.valid = false then
              if repairable then some (.ok (s, some offset)) else some (.error .corruptEntryRecord)
            else
              match handle s ⟨parsed.recordType, parsed.payload⟩ offset total with
              | .error e => some (.error e)
              | .ok s' => scanFrom fuel (data.drop total) (offset + total) s'

/-- Scan the body of a segment. -/
def scan (data : Bytes) (s : σ) : Option (Except WalErr (σ × Option ℕ)) :=
  scanFrom crc repairable handle (data.length + 1) data 0 s

end scan

/-! ### What a scan finds -/

section found
variable {σ : Type} {repairable : Bool} {handle : σ → WalRecord → ℕ → ℕ → Except WalErr σ} {s : σ}
  {fuel offset : ℕ} {r : WalRecord} {rs : List WalRecord} {tail more : Bytes}

/-- The bytes of the records, one after the other. -/
def body (crc : Bytes → UInt32) (rs : List WalRecord) : Bytes :=
  rs.flatMap fun r => recordBytes crc r.recordType r.payload

/-- Handle records in order, each with its offset and size. -/
def handleAll (crc : Bytes → UInt32) (handle : σ → WalRecord → ℕ → ℕ → Except WalErr σ) :
    List WalRecord → ℕ → σ → Except WalErr σ
  | [], _, s => .ok s
  | r :: rs, offset, s =>
      let total := (recordBytes crc r.recordType r.payload).length
      match handle s r offset total with
      | .error e => .error e
      | .ok s' => handleAll crc handle rs (offset + total) s'

theorem recordBytes_ne_nil (crc : Bytes → UInt32) (t : RecordType) (payload : Bytes) :
    recordBytes crc t payload ≠ [] := by
  rw [← List.length_pos_iff, length_recordBytes]
  simp [recordHeaderSize]

/-- A record that is whole is handled, and the scan goes on after it. -/
theorem scanFrom_record (hr : Short r) (rest : Bytes) :
    scanFrom crc repairable handle (fuel + 1) (recordBytes crc r.recordType r.payload ++ rest) offset s =
      match handle s r offset (recordBytes crc r.recordType r.payload).length with
      | .error e => some (.error e)
      | .ok s' => scanFrom crc repairable handle fuel rest
          (offset + (recordBytes crc r.recordType r.payload).length) s' := by
  have hp : r.payload.length < 256 ^ 4 := hr.trans_eq (by norm_num)
  have hne : recordBytes crc r.recordType r.payload ++ rest ≠ [] := by
    simp [recordBytes_ne_nil]
  simp only [scanFrom, hne, if_false, recordTotalSize_recordBytes crc r.recordType hp rest,
    List.take_left, List.drop_left, parseRecord_recordBytes crc r.recordType hp, Bool.true_eq_false]

/-- The scan of whole records and whatever is scanned after them. -/
theorem scanFrom_body (hrs : ∀ r ∈ rs, Short r) (rest : Bytes) :
    scanFrom crc repairable handle (rs.length + fuel) (body crc rs ++ rest) offset s =
      match handleAll crc handle rs offset s with
      | .error e => some (.error e)
      | .ok s' => scanFrom crc repairable handle fuel rest (offset + (body crc rs).length) s' := by
  induction rs generalizing offset s with
  | nil => simp [body, handleAll]
  | cons r rs ih =>
      have hr := hrs r List.mem_cons_self
      have hfuel : (r :: rs).length + fuel = (rs.length + fuel) + 1 := by
        simp only [List.length_cons]
        omega
      rw [hfuel, body, List.flatMap_cons, List.append_assoc, scanFrom_record hr]
      simp only [handleAll]
      split
      · rfl
      · rw [← body, ih fun q hq => hrs q (List.mem_cons_of_mem _ hq), List.length_append, Nat.add_assoc]

/-- The scan ends at the end of the data, or at a record that is cut short. -/
theorem scanFrom_torn (hr : Short r) (h : recordBytes crc r.recordType r.payload = tail ++ more)
    (hm : more ≠ []) (s : σ) :
    scanFrom crc repairable handle (fuel + 1) tail offset s =
      if tail = [] then some (.ok (s, none))
      else if repairable then some (.ok (s, some offset)) else some (.error .corruptEntryRecord) := by
  have hp : r.payload.length < 256 ^ 4 := hr.trans_eq (by norm_num)
  have hsize := recordTotalSize_prefix crc r.recordType hp h hm
  simp only [scanFrom, hsize, if_true]

/-- The size of a record is that of its header at least, and the data holds it. -/
theorem recordTotalSize_bounds {data : Bytes} {total : ℕ} (h : recordTotalSize data = .ok total) :
    recordHeaderSize ≤ total ∧ total ≤ data.length := by
  obtain ⟨_, -, h⟩ := bind_eq_ok.mp h
  obtain ⟨_, -, h⟩ := bind_eq_ok.mp h
  obtain ⟨_, -, h⟩ := bind_eq_ok.mp h
  obtain ⟨_, hle, h⟩ := bind_eq_ok.mp h
  cases h
  exact ⟨by omega, ensure_eq_ok.mp hle⟩

/-- A scan of any bytes ends. -/
theorem scanFrom_total (data : Bytes) (h : data.length < fuel) :
    ∃ result, scanFrom crc repairable handle fuel data offset s = some result := by
  induction fuel generalizing data offset s with
  | zero => omega
  | succ fuel ih =>
      simp only [scanFrom]
      split
      · exact ⟨_, rfl⟩
      · split
        · split <;> exact ⟨_, rfl⟩
        · rename_i total htotal
          split
          · split <;> exact ⟨_, rfl⟩
          · split
            · exact ⟨_, rfl⟩
            · obtain ⟨hpos, hle⟩ := recordTotalSize_bounds htotal
              apply ih
              simp only [List.length_drop]
              unfold recordHeaderSize at hpos
              omega

theorem length_body_ge (crc : Bytes → UInt32) (rs : List WalRecord) : rs.length ≤ (body crc rs).length := by
  induction rs with
  | nil => simp
  | cons r rs ih =>
      have hlen := length_recordBytes crc r.recordType r.payload
      simp only [body, List.flatMap_cons, List.length_append, List.length_cons]
      unfold body at ih
      unfold recordHeaderSize at hlen
      omega

/-- **The scan takes the whole records, in order, and stops where they end.** -/
theorem scan_body (hrs : ∀ r ∈ rs, Short r) (hr : Short r)
    (h : recordBytes crc r.recordType r.payload = tail ++ more) (hm : more ≠ []) (s : σ) :
    scan crc repairable handle (body crc rs ++ tail) s =
      match handleAll crc handle rs 0 s with
      | .error e => some (.error e)
      | .ok s' => if tail = [] then some (.ok (s', none))
          else if repairable then some (.ok (s', some (body crc rs).length))
          else some (.error .corruptEntryRecord) := by
  have hle := length_body_ge crc rs
  have hfuel : (body crc rs ++ tail).length + 1 =
      rs.length + (((body crc rs).length - rs.length + tail.length) + 1) := by
    rw [List.length_append]
    omega
  unfold scan
  rw [hfuel, scanFrom_body hrs]
  split
  · rfl
  · rw [Nat.zero_add, scanFrom_torn hr h hm]

end found

/-- Collect the records, whatever their place. -/
def collect (found : List WalRecord) (r : WalRecord) (_offset _total : ℕ) :
    Except WalErr (List WalRecord) := .ok (found ++ [r])

theorem handleAll_collect (rs found : List WalRecord) (offset : ℕ) :
    handleAll crc collect rs offset found = .ok (found ++ rs) := by
  induction rs generalizing found offset with
  | nil => simp [handleAll]
  | cons r rs ih => simp [handleAll, collect, ih]

/-- What is left of the body of a segment after a scan. -/
def kept (data : Bytes) : Option ℕ → Bytes
  | none => data
  | some offset => data.take offset

theorem buildRecord_of_short {r : WalRecord} (hr : Short r) :
    buildRecord crc r.recordType r.payload = .ok (recordBytes crc r.recordType r.payload) :=
  bind_eq_ok.mpr ⟨(), ensure_of hr, rfl⟩

theorem mapM_buildRecord {rs : List WalRecord} (hrs : ∀ r ∈ rs, Short r) :
    rs.mapM (fun r => buildRecord crc r.recordType r.payload) =
      .ok (rs.map fun r => recordBytes crc r.recordType r.payload) := by
  induction rs with
  | nil => rfl
  | cons r rs ih =>
      rw [List.mapM_cons, buildRecord_of_short (hrs r List.mem_cons_self),
        ih fun q hq => hrs q (List.mem_cons_of_mem _ hq)]
      rfl

/-- **The scan recovers exactly the whole records.**  A record that was built is measured and parsed as
what it is; a segment of whole records with a part of a further one after them is scanned to those
records and cut after them if it is the last one, and is corrupt if it is not; and the scan of any bytes
ends, whatever is made of the records. -/
theorem record_scan (crc : Bytes → UInt32) :
    (∀ r : WalRecord, Short r → ∃ bytes, buildRecord crc r.recordType r.payload = .ok bytes ∧
      recordTotalSize bytes = .ok bytes.length ∧ parseRecord crc bytes = ⟨r.recordType, r.payload, true⟩) ∧
    (∀ (rs : List WalRecord) (r : WalRecord) (tail more : Bytes), (∀ q ∈ rs, Short q) → Short r →
      buildRecord crc r.recordType r.payload = .ok (tail ++ more) → more ≠ [] →
      ∃ built, rs.mapM (fun q => buildRecord crc q.recordType q.payload) = .ok built ∧
        (∃ cut, scan crc true collect (built.flatten ++ tail) [] = some (.ok (rs, cut)) ∧
          kept (built.flatten ++ tail) cut = built.flatten) ∧
        (tail ≠ [] → scan crc false collect (built.flatten ++ tail) [] =
          some (.error .corruptEntryRecord))) ∧
    ∀ (σ : Type) (repairable : Bool) (handle : σ → WalRecord → ℕ → ℕ → Except WalErr σ) (data : Bytes)
      (s : σ), ∃ result, scan crc repairable handle data s = some result := by
  refine ⟨?_, ?_, fun σ repairable handle data s => scanFrom_total data (Nat.lt_succ_self _)⟩
  · intro r hr
    have hp : r.payload.length < 256 ^ 4 := hr.trans_eq (by norm_num)
    refine ⟨_, buildRecord_of_short hr, ?_, parseRecord_recordBytes crc r.recordType hp⟩
    have h := recordTotalSize_recordBytes crc r.recordType hp []
    rwa [List.append_nil] at h
  · intro rs r tail more hrs hr hbuild hm
    have hbytes : recordBytes crc r.recordType r.payload = tail ++ more :=
      Except.ok.inj ((buildRecord_of_short hr).symm.trans hbuild)
    refine ⟨_, mapM_buildRecord hrs, ?_, ?_⟩
    · have hscan : scan crc true collect (body crc rs ++ tail) [] = _ := scan_body hrs hr hbytes hm []
      rw [handleAll_collect, List.nil_append] at hscan
      rw [← List.flatMap_def, ← body]
      by_cases ht : tail = []
      · refine ⟨none, hscan.trans (if_pos ht), ?_⟩
        rw [ht, List.append_nil]
        rfl
      · exact ⟨some (body crc rs).length, hscan.trans (if_neg ht), List.take_left⟩
    · intro ht
      have hscan : scan crc false collect (body crc rs ++ tail) [] = _ := scan_body hrs hr hbytes hm []
      rw [handleAll_collect] at hscan
      rw [← List.flatMap_def, ← body]
      exact hscan.trans (if_neg ht)

end WalRecords

end Raftz
