import CouncilLedger.Text.Digits

/-!
# TOML strings

Basic strings with escapes and literal strings without, each on one line or on
several. Line ends of two characters are read as one, and of the quotes before
a closing delimiter of three up to two belong to the string.
-/

namespace CouncilLedger.Toml

/-! ## Characters -/

/-- The blanks within a line. -/
def isBlank (c : Char) : Bool := c == ' ' || c == '\t'

/-- What is left after blanks. -/
def skipBlanks (s : List Char) : List Char := s.dropWhile isBlank

/-- Whether a character may stand for itself in strings and comments: no control
character may but the tab. -/
def isPlain (c : Char) : Bool :=
  c == '\t' || (0x20 ≤ c.toNat && c.toNat != 0x7F)

/-- What follows the end of a line. -/
def afterLineEnd? : List Char → Option (List Char)
  | '\n' :: rest => some rest
  | '\r' :: '\n' :: rest => some rest
  | _ => none

/-- The text without a line end at its start. -/
def dropLineEnd (s : List Char) : List Char := (afterLineEnd? s).getD s

/-! ## Escapes -/

/-- The character whose code some digits give. -/
def codeChar? (ds : List Char) : Option Char := do
  let n ← Text.hexNumber? ds
  if n.isValidChar then return Char.ofNat n else none

/-- The character that a backslash and `c` stand for. -/
def shortEscape? (c : Char) : Option Char :=
  if c = '"' ∨ c = '\\' then some c
  else if c = 'b' then some '\x08'
  else if c = 'f' then some '\x0c'
  else if c = 'n' then some '\n'
  else if c = 'r' then some '\r'
  else if c = 't' then some '\t'
  else none

/-- Put a character before a string that was read. -/
def withFirst (c : Char) (r : List Char × List Char) : List Char × List Char :=
  (c :: r.1, r.2)

/-! ## Strings on one line -/

/-- A basic string after its opening quote, and what follows the closing one. -/
def readBasic : List Char → Option (List Char × List Char)
  | [] => none
  | '"' :: rest => some ([], rest)
  | '\\' :: 'u' :: a :: b :: c :: d :: rest => do
    let x ← codeChar? [a, b, c, d]
    return withFirst x (← readBasic rest)
  | '\\' :: 'U' :: a :: b :: c :: d :: e :: f :: g :: h :: rest => do
    let x ← codeChar? [a, b, c, d, e, f, g, h]
    return withFirst x (← readBasic rest)
  | '\\' :: e :: rest => do
    let x ← shortEscape? e
    return withFirst x (← readBasic rest)
  | c :: rest => if isPlain c then (readBasic rest).map (withFirst c) else none

/-- A literal string after its opening quote, and what follows the closing
one. -/
def readLiteral : List Char → Option (List Char × List Char)
  | [] => none
  | '\'' :: rest => some ([], rest)
  | c :: rest => if isPlain c then (readLiteral rest).map (withFirst c) else none

/-! ## Strings on several lines -/

/-- Whether blanks up to the end of a line follow. -/
def lineEndFollows (s : List Char) : Bool :=
  (afterLineEnd? (skipBlanks s)).isSome

/-- A basic string of several lines after its opening quotes, and what follows
the closing ones. A backslash at the end of a line passes over all blanks and
line ends up to the next character. -/
def readBasicLines (skipping : Bool) :
    List Char → Option (List Char × List Char)
  | [] => none
  | '"' :: '"' :: '"' :: '"' :: '"' :: rest => some (['"', '"'], rest)
  | '"' :: '"' :: '"' :: '"' :: rest => some (['"'], rest)
  | '"' :: '"' :: '"' :: rest => some ([], rest)
  | '\\' :: 'u' :: a :: b :: c :: d :: rest => do
    let x ← codeChar? [a, b, c, d]
    return withFirst x (← readBasicLines false rest)
  | '\\' :: 'U' :: a :: b :: c :: d :: e :: f :: g :: h :: rest => do
    let x ← codeChar? [a, b, c, d, e, f, g, h]
    return withFirst x (← readBasicLines false rest)
  | '\\' :: e :: rest =>
    if lineEndFollows (e :: rest) then readBasicLines true (e :: rest)
    else do
      let x ← shortEscape? e
      return withFirst x (← readBasicLines false rest)
  | '\r' :: '\n' :: rest =>
    if skipping then readBasicLines true rest
    else (readBasicLines false rest).map (withFirst '\n')
  | c :: rest =>
    if skipping ∧ (isBlank c ∨ c = '\n') then readBasicLines true rest
    else if isPlain c ∨ c = '\n' then
      (readBasicLines false rest).map (withFirst c)
    else none

/-- A literal string of several lines after its opening quotes, and what follows
the closing ones. -/
def readLiteralLines : List Char → Option (List Char × List Char)
  | [] => none
  | '\'' :: '\'' :: '\'' :: '\'' :: '\'' :: rest => some (['\'', '\''], rest)
  | '\'' :: '\'' :: '\'' :: '\'' :: rest => some (['\''], rest)
  | '\'' :: '\'' :: '\'' :: rest => some ([], rest)
  | '\r' :: '\n' :: rest => (readLiteralLines rest).map (withFirst '\n')
  | c :: rest =>
    if isPlain c ∨ c = '\n' then (readLiteralLines rest).map (withFirst c)
    else none

/-- A string of any kind, and what follows it. -/
def readString (s : List Char) : Option (String × List Char) :=
  let r := match s with
    | '"' :: '"' :: '"' :: rest => readBasicLines false (dropLineEnd rest)
    | '"' :: rest => readBasic rest
    | '\'' :: '\'' :: '\'' :: rest => readLiteralLines (dropLineEnd rest)
    | '\'' :: rest => readLiteral rest
    | _ => none
  r.map fun r => (String.ofList r.1, r.2)

end CouncilLedger.Toml
