import CouncilLedger.Json.Basic
import CouncilLedger.Text.Quoted

/-!
# Text of JSON values

Two layouts: compact, on one line and without blanks, and indented by two
blanks a level. Strings escape the quote, the backslash and the control
characters below U+0020; all else stands for itself.
-/

namespace CouncilLedger.Json

/-- The escaped form of a character within a string. -/
def escapeChar (c : Char) : List Char :=
  if c = '"' then ['\\', '"']
  else if c = '\\' then ['\\', '\\']
  else if c = '\x08' then ['\\', 'b']
  else if c = '\t' then ['\\', 't']
  else if c = '\n' then ['\\', 'n']
  else if c = '\x0c' then ['\\', 'f']
  else if c = '\r' then ['\\', 'r']
  else if c.toNat < 0x20 then
    ['\\', 'u', '0', '0', Nat.digitChar (c.toNat / 16),
      Nat.digitChar (c.toNat % 16)]
  else [c]

/-- A string between its quotes. -/
def renderString (s : String) : List Char :=
  '"' :: (s.toList.flatMap escapeChar ++ ['"'])

/-- The decimal digits of a whole number, after its sign. -/
def renderInt (n : Int) : List Char :=
  match n with
  | .ofNat k => Nat.toDigits 10 k
  | .negSucc k => '-' :: Nat.toDigits 10 (k + 1)

/-! ## Compact text -/

mutual
/-- The compact text of a value. -/
def render : Json → List Char
  | null => ['n', 'u', 'l', 'l']
  | bool true => ['t', 'r', 'u', 'e']
  | bool false => ['f', 'a', 'l', 's', 'e']
  | int n => renderInt n
  | fraction numeral => numeral.toList
  | str s => renderString s
  | unreadable => ['n', 'u', 'l', 'l']
  | arr [] => ['[', ']']
  | arr (v :: rest) => '[' :: (render v ++ renderItems rest)
  | obj [] => ['\x7b', '\x7d']
  | obj ((k, v) :: rest) =>
    '\x7b' :: (renderString k ++ ':' :: (render v ++ renderMembers rest))

/-- The items after the first one, and the closing bracket. -/
def renderItems : List Json → List Char
  | [] => [']']
  | v :: rest => ',' :: (render v ++ renderItems rest)

/-- The members after the first one, and the closing brace. -/
def renderMembers : List (String × Json) → List Char
  | [] => ['\x7d']
  | (k, v) :: rest =>
    ',' :: (renderString k ++ ':' :: (render v ++ renderMembers rest))
end

/-- The compact text of a value. -/
def compact (v : Json) : String := String.ofList (render v)

/-! ## Indented text -/

/-- A line end and the blanks of a level. -/
def lineAt (level : Nat) : List Char := '\n' :: List.replicate (2 * level) ' '

mutual
/-- The indented text of a value at a level. -/
def renderAt (level : Nat) : Json → List Char
  | arr (v :: rest) =>
    '[' :: (lineAt (level + 1) ++ renderAt (level + 1) v ++
      renderItemsAt level rest)
  | obj ((k, v) :: rest) =>
    '\x7b' :: (lineAt (level + 1) ++ renderString k ++ [':', ' '] ++
      renderAt (level + 1) v ++ renderMembersAt level rest)
  | v => render v

/-- The items after the first one, each on lines of its own, and the bracket. -/
def renderItemsAt (level : Nat) : List Json → List Char
  | [] => lineAt level ++ [']']
  | v :: rest =>
    ',' :: (lineAt (level + 1) ++ renderAt (level + 1) v ++
      renderItemsAt level rest)

/-- The members after the first one, each on lines of its own, and the brace. -/
def renderMembersAt (level : Nat) : List (String × Json) → List Char
  | [] => lineAt level ++ ['\x7d']
  | (k, v) :: rest =>
    ',' :: (lineAt (level + 1) ++ renderString k ++ [':', ' '] ++ renderAt
      (level + 1) v ++ renderMembersAt level rest)
end

/-- The indented text of a value. -/
def indented (v : Json) : String := String.ofList (renderAt 0 v)

end CouncilLedger.Json
