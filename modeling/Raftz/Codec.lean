import Raftz.Types

/-! # Encoding of configuration changes

`encodeConfChangeV2` and `decodeConfChangeV2` of `core/util.zig`: a header
(`RCC2`, version, transition, number of changes), nine bytes for each change and
the length-prefixed context.  Integers are little-endian. -/

namespace Raftz

/-- The `width` low-order bytes of a number, least significant first. -/
def leBytes (n : ℕ) : ℕ → Bytes
  | 0 => []
  | width + 1 => UInt8.ofNat (n % 256) :: leBytes (n / 256) width

/-- The number with these bytes, least significant first. -/
def ofLeBytes : Bytes → ℕ
  | [] => 0
  | b :: bs => b.toNat + 256 * ofLeBytes bs

namespace ConfChangeTransition

/-- Numeric value on the wire. -/
def toByte : ConfChangeTransition → UInt8
  | .auto => 0
  | .implicit => 1
  | .explicit => 2

/-- The transition with a numeric value. -/
def ofByte (b : UInt8) : Option ConfChangeTransition :=
  if b = 0 then some .auto else if b = 1 then some .implicit else if b = 2 then some .explicit else none

end ConfChangeTransition

namespace ConfChangeType

/-- Numeric value on the wire. -/
def toByte : ConfChangeType → UInt8
  | .addNode => 0
  | .removeNode => 1
  | .addLearnerNode => 2
  | .updateNode => 3

/-- The change type with a numeric value. -/
def ofByte (b : UInt8) : Option ConfChangeType :=
  if b = 0 then some .addNode else if b = 1 then some .removeNode
  else if b = 2 then some .addLearnerNode else if b = 3 then some .updateNode else none

end ConfChangeType

/-- The characters `RCC2`. -/
def ccMagic : Bytes := [0x52, 0x43, 0x43, 0x32]
/-- Version of the encoding. -/
def ccVersion : UInt8 := 1

/-- The nine bytes of one change. -/
def encodeChange (c : ConfChangeSingle) : Bytes := c.changeType.toByte :: leBytes c.nodeId 8

/-- Encode a configuration change. -/
def encodeConfChangeV2 (cc : ConfChangeV2) : Except Err Bytes :=
  if 2 ^ 16 ≤ cc.changes.length then .error .confChangeError
  else if 2 ^ 32 ≤ cc.context.length then .error .confChangeError
  else .ok (ccMagic ++ [ccVersion, cc.transition.toByte] ++ leBytes cc.changes.length 2 ++
    cc.changes.flatMap encodeChange ++ leBytes cc.context.length 4 ++ cc.context)

/-- Decode a number of changes and return the bytes after them. -/
def decodeChanges : ℕ → Bytes → Option (List ConfChangeSingle × Bytes)
  | 0, bs => some ([], bs)
  | n + 1, b :: bs => do
      let t ← ConfChangeType.ofByte b
      let (cs, rest) ← decodeChanges n (bs.drop 8)
      return (⟨t, ofLeBytes (bs.take 8)⟩ :: cs, rest)
  | _ + 1, [] => none

/-- Decode a configuration change; nothing may follow it. -/
def decodeConfChangeV2 (bytes : Bytes) : Except Err ConfChangeV2 :=
  if bytes.length < 12 then .error .confChangeParseError
  else if bytes.take 4 ≠ ccMagic then .error .confChangeParseError
  else if bytes.getD 4 0 ≠ ccVersion then .error .confChangeParseError
  else
    let n := ofLeBytes ((bytes.drop 6).take 2)
    if bytes.length < 8 + n * 9 + 4 then .error .confChangeParseError
    else
      match ConfChangeTransition.ofByte (bytes.getD 5 0), decodeChanges n (bytes.drop 8) with
      | some transition, some (changes, rest) =>
          if rest.length ≠ 4 + ofLeBytes (rest.take 4) then .error .confChangeParseError
          else .ok ⟨transition, changes, rest.drop 4⟩
      | _, _ => .error .confChangeParseError

end Raftz
