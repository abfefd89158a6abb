import CouncilLedger.Digest
import CouncilLedger.Text.Digits

/-!
# Block keys

A block is looked up by its digest or by its height. A text with a leading `0x`
or of 64 bytes is a digest; any other text of decimal digits is a height.
-/

namespace CouncilLedger

/-- What a block is looked up by. -/
inductive BlockKey where
  | byHash (hash : Digest)
  | byHeight (height : UInt64)
deriving DecidableEq

namespace BlockKey

/-- Whether a text begins with `0x`. -/
def isMarked (s : String) : Bool :=
  match s.toList with
  | '0' :: 'x' :: _ => true
  | _ => false

/-- The key that a text stands for. -/
def parse (s : String) : Except FormatFault BlockKey :=
  if isMarked s ∨ s.utf8ByteSize = 64 then (Digest.ofHex s).map byHash
  else if s.toList.isEmpty ∨ !s.toList.all Char.isDigit then .error (.blockKey s)
  else if Text.decimal s.toList < UInt64.size then
    .ok (byHeight (UInt64.ofNat (Text.decimal s.toList)))
  else .error (.heightRange s)

end BlockKey
end CouncilLedger
