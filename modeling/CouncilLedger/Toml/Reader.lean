import CouncilLedger.Toml.Numeral
import CouncilLedger.Toml.Tables
import CouncilLedger.Toml.Text

/-!
# Reading TOML text

Values are read from the characters that are left, statements line by line.
Comments, blanks and line ends between them count for nothing.
-/

namespace CouncilLedger.Toml

/-! ## Lines -/

/-- What is left from the end of a comment on: its line end or the end of the
text. Control characters are refused. -/
def afterComment (s : List Char) : List Char := s.dropWhile isPlain

/-- What follows the end of a line, behind blanks and a comment. The end of the
text ends a line too. -/
def endLine (s : List Char) : Option (List Char) :=
  let rest := match skipBlanks s with
    | '#' :: comment => afterComment comment
    | rest => rest
  if rest.isEmpty then some [] else afterLineEnd? rest

/-- What is left after blanks, line ends and comments. A comment ends with its
line. -/
def skipGap (inComment : Bool) : List Char → Option (List Char)
  | [] => if inComment then none else some []
  | '\r' :: '\n' :: rest => skipGap false rest
  | c :: rest =>
    if c = '\n' then skipGap false rest
    else if inComment then if isPlain c then skipGap true rest else none
    else if isBlank c then skipGap false rest
    else if c = '#' then skipGap true rest
    else some (c :: rest)

/-! ## Keys -/

/-- Whether a key may hold a character without quotes. -/
def isBare (c : Char) : Bool := c.isAlphanum || c == '_' || c == '-'

/-- One part of a key, and what follows. -/
def readKeyPart (s : List Char) : Option (String × List Char) :=
  match s with
  | '"' :: rest => (readBasic rest).map fun r => (String.ofList r.1, r.2)
  | '\'' :: rest => (readLiteral rest).map fun r => (String.ofList r.1, r.2)
  | s =>
    let name := s.takeWhile isBare
    if name.isEmpty then none else some (String.ofList name, s.dropWhile isBare)

/-- The most parts of a key, and the most brackets around a value. -/
def nestingLimit : Nat := 79

/-- The parts of a key with dots between them, at most `n`, and what follows. -/
def readKeyParts : Nat → List Char → Option (List String × List Char)
  | 0, _ => none
  | n + 1, s => do
    let (part, rest) ← readKeyPart (skipBlanks s)
    match skipBlanks rest with
    | '.' :: more => do
      let (parts, after) ← readKeyParts n more
      return (part :: parts, after)
    | after => return ([part], after)

/-- The parts of a key before its last one, the last one, and what follows. -/
def readKey (s : List Char) : Option ((List String × String) × List Char) := do
  let (parts, after) ← readKeyParts nestingLimit s
  return ((parts.dropLast, ← parts.getLast?), after)

/-! ## Values -/

mutual
/-- A value within at most `levels` more brackets, and what follows it. Each
step takes one of `fuel`. -/
def readValue (fuel levels : Nat) (s : List Char) : Option (Toml × List Char) :=
  match fuel with
  | 0 => none
  | fuel + 1 =>
    match s with
    | '[' :: rest =>
      match levels with
      | 0 => none
      | levels + 1 => do
        let (items, after) ← readItems fuel levels rest
        return (arr items, after)
    | '\x7b' :: rest =>
      match levels with
      | 0 => none
      | levels + 1 =>
        match skipBlanks rest with
        | '\x7d' :: after => some (table [], after)
        | pairs => do
          let (members, after) ← readPairs fuel levels [] pairs
          return (table (membersToToml members), after)
    | 't' :: 'r' :: 'u' :: 'e' :: after => some (bool true, after)
    | 'f' :: 'a' :: 'l' :: 's' :: 'e' :: after => some (bool false, after)
    | c :: rest =>
      if c = '"' ∨ c = '\'' then
        (readString (c :: rest)).map fun r => (str r.1, r.2)
      else readNumeral (c :: rest)
    | [] => none

/-- The items of an array up to its closing bracket, and what follows. A comma
may stand behind the last item. -/
def readItems (fuel levels : Nat) (s : List Char) :
    Option (List Toml × List Char) :=
  match fuel with
  | 0 => none
  | fuel + 1 => do
    match ← skipGap false s with
    | ']' :: after => return ([], after)
    | item =>
      let (v, rest) ← readValue fuel levels item
      match ← skipGap false rest with
      | ',' :: more =>
        let (vs, after) ← readItems fuel levels more
        return (v :: vs, after)
      | ']' :: after => return ([v], after)
      | _ => none

/-- The pairs of a table on one line up to its closing brace, added to
`members`, and what follows. -/
def readPairs (fuel levels : Nat) (members : Members) (s : List Char) :
    Option (Members × List Char) :=
  match fuel with
  | 0 => none
  | fuel + 1 => do
    let ((path, key), keyed) ← readKey s
    match keyed with
    | '=' :: valued =>
      let (v, rest) ← readValue fuel levels (skipBlanks valued)
      let members ← members.addDotted path key v .header
      match skipBlanks rest with
      | ',' :: more => readPairs fuel levels members more
      | '\x7d' :: after => return (members, after)
      | _ => none
    | _ => none
end

/-! ## Statements -/

/-- A table that was opened last, by its path, and all members so far. -/
structure Place where
  path : List String
  root : Members

namespace Place

/-- Open a table by the header of a table or of an item of an array. -/
def header (place : Place) (isItem : Bool) (path : List String) (key : String) :
    Option Place := do
  let opening := if isItem then Members.openItem key else Members.openTable key
  return ⟨path ++ [key], ← place.root.change false opening .header path⟩

/-- Give a key of the table a value. -/
def add (place : Place) (path : List String) (key : String) (v : Toml) :
    Option Place := do
  let root ← place.root.change false
    (fun origin ms => ms.addDotted path key v origin) .header place.path
  return { place with root }

end Place

/-- The place after a statement and what follows the statement's line. -/
def readStatement (place : Place) (s : List Char) :
    Option (Place × List Char) :=
  match s with
  | '[' :: '[' :: rest => do
    let ((path, key), closing) ← readKey rest
    match closing with
    | ']' :: ']' :: after =>
      return (← place.header true path key, ← endLine after)
    | _ => none
  | '[' :: rest => do
    let ((path, key), closing) ← readKey rest
    match closing with
    | ']' :: after => return (← place.header false path key, ← endLine after)
    | _ => none
  | s => do
    let ((path, key), keyed) ← readKey s
    match keyed with
    | '=' :: valued =>
      let (v, after) ← readValue (2 * valued.length + 2) nestingLimit
        (skipBlanks valued)
      return (← place.add path key v, ← endLine after)
    | _ => none

/-- The members after all statements of a text. Each line takes one of
`fuel`. -/
def readStatements (fuel : Nat) (place : Place) (s : List Char) :
    Option Members :=
  match fuel with
  | 0 => none
  | fuel + 1 =>
    match skipBlanks s with
    | [] => some place.root
    | line =>
      match endLine line with
      | some rest => readStatements fuel place rest
      | none => do
        let (place, rest) ← readStatement place line
        readStatements fuel place rest

/-- The text without a byte order mark. -/
def withoutMark : List Char → List Char
  | '\uFEFF' :: rest => rest
  | s => s

/-- The members of the table that a text denotes. -/
def read (s : List Char) : Option (List (String × Toml)) :=
  (readStatements (s.length + 1) ⟨[], []⟩ (withoutMark s)).map membersToToml

end CouncilLedger.Toml
