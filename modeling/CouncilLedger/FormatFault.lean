import CouncilLedger.Text.Quoted

/-!
# Malformed identifiers

What can be wrong with the text of a digest, a block key or an address.
-/

namespace CouncilLedger

/-- Why a text is no identifier of the kind that was asked for. -/
inductive FormatFault where
  /-- A digest of `length` bytes of text instead of 64. -/
  | digestLength (length : Nat)
  /-- The byte `code` at `position` of a digest is no hexadecimal digit. -/
  | digestDigit (code : UInt8) (position : Nat)
  /-- A block key that is neither a digest nor a height. -/
  | blockKey (text : String)
  /-- A height of more than 64 bits. -/
  | heightRange (text : String)
  /-- An address that is empty or longer than 128 bytes. -/
  | addressLength
  /-- An address with a character outside letters, digits, underscore and
  hyphen. -/
  | addressCharacters (text : String)
  /-- A request that names no sender where there is no default one. -/
  | noSender
deriving DecidableEq, Repr

namespace FormatFault

/-- The wording of a fault. -/
def message : FormatFault → String
  | digestLength n => "digest must be 64 hex characters, got " ++ toString n
  | digestDigit code position =>
    "digest is not hex: Invalid character " ++ Text.quotedChar
      (Char.ofNat code.toNat) ++ " at position " ++ toString position
  | blockKey s => "'" ++ s ++ "' is neither a block hash nor a height"
  | heightRange s => "height '" ++ s ++ "' out of range"
  | addressLength => "address must be 1-128 characters"
  | addressCharacters s => "address '" ++ s ++ "' contains invalid characters"
  | noSender => "no sender given and no default sender configured"

end FormatFault
end CouncilLedger
