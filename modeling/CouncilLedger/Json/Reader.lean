import CouncilLedger.Json.Numeral

/-!
# Reading JSON text

A reader takes the characters that are left and returns what it read with the
characters after it. The whole grammar is checked also where the value will not
be used; what has the shape of a value but denotes none, and what is nested too
deep in the text, reads as `unreadable`.
-/

namespace CouncilLedger.Json

/-- The blanks between the parts of a value. -/
def isSpace (c : Char) : Bool := c == ' ' || c == '\n' || c == '\t' || c == '\r'

/-- What is left after blanks. -/
def skipSpace (s : List Char) : List Char := s.dropWhile isSpace

/-! ## Strings -/

/-- A character of a string, or half of a surrogate pair written as an
escape. -/
inductive StringPiece where
  | char (c : Char)
  | half (code : Nat)

/-- What a code of four digits stands for. -/
def StringPiece.ofCode (n : Nat) : StringPiece :=
  if 0xD800 ≤ n ∧ n < 0xE000 then half n else char (Char.ofNat n)

/-- The character that a backslash and `c` stand for. -/
def shortEscape? (c : Char) : Option Char :=
  if c = '"' ∨ c = '\\' ∨ c = '/' then some c
  else if c = 'b' then some '\x08'
  else if c = 'f' then some '\x0c'
  else if c = 'n' then some '\n'
  else if c = 'r' then some '\r'
  else if c = 't' then some '\t'
  else none

/-- The pieces of a string after its opening quote, and what follows the closing
one. Control characters stand in strings as escapes only. -/
def stringPieces : List Char → Option (List StringPiece × List Char)
  | [] => none
  | '"' :: rest => some ([], rest)
  | '\\' :: 'u' :: a :: b :: c :: d :: rest => do
    let n ← Text.hexNumber? [a, b, c, d]
    let (ps, after) ← stringPieces rest
    return (.ofCode n :: ps, after)
  | '\\' :: e :: rest => do
    let c ← shortEscape? e
    let (ps, after) ← stringPieces rest
    return (.char c :: ps, after)
  | c :: rest => do
    if c.toNat < 0x20 then none
    let (ps, after) ← stringPieces rest
    return (.char c :: ps, after)

/-- The text of some pieces, unless half of a surrogate pair stands alone. -/
def joinPieces : List StringPiece → Option (List Char)
  | [] => some []
  | .char c :: rest => (joinPieces rest).map (c :: ·)
  | .half high :: .half low :: rest =>
    if high < 0xDC00 ∧ 0xDC00 ≤ low then
      (joinPieces rest).map
        (Char.ofNat (0x10000 + (high - 0xD800) * 0x400 + (low - 0xDC00)) :: ·)
    else none
  | .half _ :: _ => none

/-- A string after its opening quote: its text, where it has one, and the
rest. -/
def readString (s : List Char) : Option (Option String × List Char) := do
  let (ps, after) ← stringPieces s
  return ((joinPieces ps).map String.ofList, after)

/-! ## Values -/

/-- The object of some members, `unreadable` if a key is. -/
def ofMembers (members : List (Option String × Json)) : Json :=
  match members.mapM (fun m => m.1.map (·, m.2)) with
  | some ms => obj ms
  | none => unreadable

mutual
/-- A value that stands within `around` arrays and objects, and what follows it.
Each step takes one of `fuel`. -/
def readValue (fuel around : Nat) (s : List Char) : Option (Json × List Char) :=
  match fuel with
  | 0 => none
  | fuel + 1 =>
    match skipSpace s with
    | 'n' :: 'u' :: 'l' :: 'l' :: rest => some (null, rest)
    | 't' :: 'r' :: 'u' :: 'e' :: rest => some (bool true, rest)
    | 'f' :: 'a' :: 'l' :: 's' :: 'e' :: rest => some (bool false, rest)
    | '"' :: rest => do
      let (s?, after) ← readString rest
      return ((s?.map str).getD unreadable, after)
    | '[' :: rest => do
      let (vs, after) ←
        match skipSpace rest with
        | ']' :: after => some ([], after)
        | items => readItems fuel (around + 1) items
      return (if around < depthLimit then arr vs else unreadable, after)
    | '\x7b' :: rest => do
      let (ms, after) ←
        match skipSpace rest with
        | '\x7d' :: after => some ([], after)
        | members => readMembers fuel (around + 1) members
      return (if around < depthLimit then ofMembers ms else unreadable, after)
    | other => readNumeral other

/-- The items of an array up to its closing bracket, and what follows it. -/
def readItems (fuel around : Nat) (s : List Char) :
    Option (List Json × List Char) :=
  match fuel with
  | 0 => none
  | fuel + 1 => do
    let (v, rest) ← readValue fuel around s
    match skipSpace rest with
    | ',' :: more =>
      let (vs, after) ← readItems fuel around more
      return (v :: vs, after)
    | ']' :: after => return ([v], after)
    | _ => none

/-- The members of an object up to its closing brace, and what follows it. -/
def readMembers (fuel around : Nat) (s : List Char) :
    Option (List (Option String × Json) × List Char) :=
  match fuel with
  | 0 => none
  | fuel + 1 =>
    match skipSpace s with
    | '"' :: keyed => do
      let (key, rest) ← readString keyed
      match skipSpace rest with
      | ':' :: valued =>
        let (v, rest) ← readValue fuel around valued
        match skipSpace rest with
        | ',' :: more =>
          let (ms, after) ← readMembers fuel around more
          return ((key, v) :: ms, after)
        | '\x7d' :: after => return ([(key, v)], after)
        | _ => none
      | _ => none
    | _ => none
end

/-- Enough fuel for any value of a text: between two steps of one kind a
character is taken. -/
def fuelFor (s : List Char) : Nat := 2 * s.length + 2

/-- The first value of a text, whatever follows it. -/
def readFirst (s : List Char) : Option Json :=
  (readValue (fuelFor s) 0 s).map (·.1)

/-- The value that is a whole text but for blanks. -/
def readAll (s : List Char) : Option Json :=
  match readValue (fuelFor s) 0 s with
  | some (v, rest) => if (skipSpace rest).isEmpty then some v else none
  | none => none

/-- The value that is a whole text and is kept whole, so that all of it has to
denote something. -/
def readDocument (s : List Char) : Option Json := (readAll s).filter denotes

end CouncilLedger.Json
