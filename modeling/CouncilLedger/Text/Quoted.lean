import CouncilLedger.Text.Classes

/-!
# Quoted text

The form in which messages quote a character or a text: between quotes, with
the quote itself, the backslash, line ends, tabs and NUL escaped by a
backslash and every other unprintable character shown as its code point.
-/

namespace CouncilLedger.Text

/-- The lower-case hexadecimal digits of `n`, without leading zeros. -/
def hexDigits (n : Nat) : List Char := Nat.toDigits 16 n

/-- How `c` stands between quotes of the kind `quote`. -/
def escapeWithin (quote c : Char) : List Char :=
  if c = quote ∨ c = '\\' then ['\\', c]
  else if c = '\n' then ['\\', 'n']
  else if c = '\r' then ['\\', 'r']
  else if c = '\t' then ['\\', 't']
  else if c = '\x00' then ['\\', '0']
  else if isUnprintable c then
    ['\\', 'u', '\x7b'] ++ hexDigits c.toNat ++ ['\x7d']
  else [c]

/-- A character between single quotes. -/
def quotedChar (c : Char) : String :=
  String.ofList ('\'' :: (escapeWithin '\'' c ++ ['\'']))

/-- A text between double quotes. -/
def quoted (s : String) : String :=
  String.ofList ('"' :: (s.toList.flatMap (escapeWithin '"') ++ ['"']))

end CouncilLedger.Text
