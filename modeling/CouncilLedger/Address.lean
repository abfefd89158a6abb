import CouncilLedger.Encoding
import CouncilLedger.FormatFault

/-!
# Addresses

An account is named by 1 to 128 letters, digits, underscores and hyphens. Two
names are reserved: the account of the treasury, and the one that sends the
mints of the first block.
-/

namespace CouncilLedger.Address

/-- The account that holds the common funds. -/
def treasury : String := "treasury"

/-- The sender of the mints of the first block. -/
def genesis : String := "genesis"

/-- The most bytes that an address has. -/
def maxLength : Nat := 128

/-- Whether an address may hold the character of code `c`. -/
def isCode (c : UInt8) : Bool :=
  (48 ≤ c && c ≤ 57) || (65 ≤ c && c ≤ 90) || (97 ≤ c && c ≤ 122) ||
    c == 95 || c == 45

/-- Accept a well-formed address. -/
def check (a : String) : Except FormatFault Unit :=
  if a.utf8ByteSize = 0 ∨ maxLength < a.utf8ByteSize then .error .addressLength
  else if (Text.encode a.toList).all isCode then .ok ()
  else .error (.addressCharacters a)

/-- Whether an address names a reserved account. -/
def isReserved (a : String) : Bool := a == treasury || a == genesis

end CouncilLedger.Address
