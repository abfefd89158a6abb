import CouncilLedger.Json.Printer
import CouncilLedger.Toml.Reader

/-!
# Text of TOML tables

A table is written as its plain members, one a line, and behind them its tables
under headers, with a blank line between them; a list of tables becomes an
array of tables unless it is empty. A string is written in the plainest of
four forms that needs no escapes, and with escapes if there is none.
-/

namespace CouncilLedger.Toml

/-! ## Strings -/

/-- The four forms of a string. -/
inductive Quoting where
  | basic
  | literal
  | basicLines
  | literalLines
deriving DecidableEq, Repr

/-- The length of the longest run of a character, where `run` of them went
before. -/
def longestRun (c : Char) (run : Nat) : List Char → Nat
  | [] => run
  | d :: rest =>
    if d = c then longestRun c (run + 1) rest else max run (longestRun c 0 rest)

/-- Whether a character can be written by an escape only. -/
def isControl (c : Char) : Bool := !isPlain c && c != '\n'

/-- The form that a string is written in. -/
def quoting (s : List Char) : Quoting :=
  let hasControl := s.any isControl
  let hasBackslash := s.contains '\\'
  let hasLines := s.contains '\n'
  if !hasControl && !hasBackslash && !hasLines && !s.contains '"' then .basic
  else if !hasControl && !hasLines && !s.contains '\'' then .literal
  else if !hasControl && !hasBackslash && longestRun '"' 0 s ≤ 2 then .basicLines
  else if !hasControl && longestRun '\'' 0 s ≤ 2 then .literalLines
  else if hasLines then .basicLines
  else .basic

/-- The four digits of a code below 256. -/
def codeDigits (n : Nat) : List Char :=
  ['0', '0', (Nat.digitChar (n / 16)).toUpper, (Nat.digitChar (n % 16)).toUpper]

/-- How a character other than a quote stands in a basic string. -/
def escapeBasic (lines : Bool) (c : Char) : List Char :=
  if c = '\x08' then ['\\', 'b']
  else if c = '\t' then ['\\', 't']
  else if c = '\n' then if lines then ['\n'] else ['\\', 'n']
  else if c = '\x0c' then ['\\', 'f']
  else if c = '\r' then ['\\', 'r']
  else if c = '\\' then ['\\', '\\']
  else if isControl c then '\\' :: 'u' :: codeDigits c.toNat
  else [c]

/-- A basic string between its quotes, where `run` quotes went before. Over
several lines two quotes in a row stand for themselves. -/
def renderBasic (lines : Bool) (run : Nat) : List Char → List Char
  | [] => []
  | c :: rest =>
    if c = '"' then
      if lines ∧ run < 2 then '"' :: renderBasic lines (run + 1) rest
      else '\\' :: '"' :: renderBasic lines 0 rest
    else escapeBasic lines c ++ renderBasic lines 0 rest

/-- The line end behind the opening quotes of a string that has several
lines. -/
def openingLine (s : List Char) : List Char :=
  if s.contains '\n' then ['\n'] else []

/-- A string with its quotes. -/
def renderString (s : List Char) : List Char :=
  match quoting s with
  | .basic => '"' :: (renderBasic false 0 s ++ ['"'])
  | .literal => '\'' :: (s ++ ['\''])
  | .basicLines =>
    ['"', '"', '"'] ++ openingLine s ++ renderBasic true 0 s ++ ['"', '"', '"']
  | .literalLines =>
    ['\'', '\'', '\''] ++ openingLine s ++ s ++ ['\'', '\'', '\'']

/-! ## Values -/

/-- A key. -/
def renderKey (key : String) : List Char :=
  if !key.isEmpty && key.toList.all isBare then key.toList
  else renderString key.toList

mutual
/-- A value on one line. -/
def renderValue : Toml → List Char
  | str s => renderString s.toList
  | int n => Json.renderInt n
  | float s => s.toList
  | bool true => ['t', 'r', 'u', 'e']
  | bool false => ['f', 'a', 'l', 's', 'e']
  | time s => s.toList
  | arr [] => ['[', ']']
  | arr (v :: rest) => '[' :: (renderValue v ++ renderItems rest)
  | table [] => ['\x7b', '\x7d']
  | table ((key, v) :: rest) =>
    ['\x7b', ' '] ++ renderKey key ++ [' ', '=', ' '] ++ renderValue v ++
      renderPairs rest

/-- The items behind the first one, and the closing bracket. -/
def renderItems : List Toml → List Char
  | [] => [']']
  | v :: rest => [',', ' '] ++ renderValue v ++ renderItems rest

/-- The pairs behind the first one, and the closing brace. -/
def renderPairs : List (String × Toml) → List Char
  | [] => [' ', '\x7d']
  | (key, v) :: rest =>
    [',', ' '] ++ renderKey key ++ [' ', '=', ' '] ++ renderValue v ++
      renderPairs rest
end

/-! ## Tables -/

/-- A member on a line of its own. -/
def renderMember (m : String × Toml) : List Char :=
  renderKey m.1 ++ [' ', '=', ' '] ++ renderValue m.2 ++ ['\n']

/-- The members of a table that is written under a header, if a value is one. -/
def members? : Toml → Option (List (String × Toml))
  | table ms => some ms
  | _ => none

/-- The blocks of lines that a member is written as under headers, if it is. -/
def blocks? (m : String × Toml) : Option (List (List Char)) :=
  match m.2 with
  | table ms =>
    some [['['] ++ renderKey m.1 ++ [']', '\n'] ++ ms.flatMap renderMember]
  | arr (v :: rest) =>
    ((v :: rest).mapM members?).map (·.map fun ms =>
      ['[', '['] ++ renderKey m.1 ++ [']', ']', '\n'] ++ ms.flatMap renderMember)
  | _ => none

/-- The block of the members that are not written under headers. -/
def plainBlock (ms : List (String × Toml)) : List (List Char) :=
  let lines := (ms.filter fun m => (blocks? m).isNone).flatMap renderMember
  if lines.isEmpty then [] else [lines]

/-- The text of a whole table. Tables within its tables stand on one line. -/
def render (ms : List (String × Toml)) : List Char :=
  ['\n'].intercalate (plainBlock ms ++ (ms.filterMap blocks?).flatten)

end CouncilLedger.Toml
