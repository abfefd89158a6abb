import CouncilLedger.Text.Digits
import CouncilLedger.Toml.Value

/-!
# TOML numerals

Whole numbers in four bases, numbers with a fraction or an exponent, and dates
and times of day. Single underscores may stand between digits.
-/

namespace CouncilLedger.Toml

/-! ## Digits -/

/-- Digits with single underscores between them, and what follows. -/
def digitRun (isDigit : Char → Bool) : List Char → List Char × List Char
  | [] => ([], [])
  | '_' :: d :: rest =>
    if isDigit d then
      let (ds, after) := digitRun isDigit rest
      (d :: ds, after)
    else ([], '_' :: d :: rest)
  | d :: rest =>
    if isDigit d then
      let (ds, after) := digitRun isDigit rest
      (d :: ds, after)
    else ([], d :: rest)

/-- One or more digits, and what follows. -/
def digits? (isDigit : Char → Bool) (s : List Char) :
    Option (List Char × List Char) :=
  match s with
  | d :: _ => if isDigit d then some (digitRun isDigit s) else none
  | [] => none

/-- A sign, and what follows. -/
def sign : List Char → Bool × List Char
  | '-' :: rest => (true, rest)
  | '+' :: rest => (false, rest)
  | s => (false, s)

/-- The digits of a whole number, without leading zeros, and what follows. -/
def wholePart? (s : List Char) : Option (List Char × List Char) :=
  match s with
  | '0' :: rest => some (['0'], rest)
  | s => digits? Char.isDigit s

/-! ## Whole numbers -/

/-- The number of the digits of a base. -/
def numberOf (base : Nat) (ds : List Char) : Nat :=
  ds.foldl (fun n d => base * n + (Text.digitValue? d).getD 0) 0

/-- Whether a character is a digit of a base. -/
def isDigitOf (base : Nat) (c : Char) : Bool :=
  (Text.digitValue? c).any (· < base)

/-- A number as a value, if it is within range. -/
def integer? (n : Int) : Option Toml :=
  if isInteger n then some (int n) else none

/-- A number of a base after its mark, and what follows. -/
def readMarked (base : Nat) (s : List Char) : Option (Toml × List Char) := do
  let (ds, after) ← digits? (isDigitOf base) s
  return (← integer? (numberOf base ds), after)

/-- A whole number, and what follows. -/
def readInteger (s : List Char) : Option (Toml × List Char) :=
  match s with
  | '0' :: 'x' :: rest => readMarked 16 rest
  | '0' :: 'o' :: rest => readMarked 8 rest
  | '0' :: 'b' :: rest => readMarked 2 rest
  | s => do
    let (negative, body) := sign s
    let (ds, after) ← wholePart? body
    let n : Int := numberOf 10 ds
    return (← integer? (if negative then -n else n), after)

/-! ## Numbers with a fraction or an exponent -/

/-- What was read of a text, given what follows. -/
def spelt (s after : List Char) : String :=
  String.ofList (s.take (s.length - after.length))

/-- A fraction of at least one digit behind its point, and what follows. -/
def fraction? : List Char → Option (List Char × List Char)
  | '.' :: rest => digits? Char.isDigit rest
  | _ => none

/-- An exponent of at least one digit behind its mark, and what follows. -/
def exponent? : List Char → Option (Int × List Char)
  | c :: rest => do
    if c ≠ 'e' ∧ c ≠ 'E' then none
    let (negative, body) := sign rest
    let (ds, after) ← digits? Char.isDigit body
    let e : Int := numberOf 10 ds
    return (if negative then -e else e, after)
  | [] => none

/-- Infinity or no number, and what follows. -/
def afterSpecial? (s : List Char) : Option (List Char) :=
  match (sign s).2 with
  | 'i' :: 'n' :: 'f' :: rest => some rest
  | 'n' :: 'a' :: 'n' :: rest => some rest
  | _ => none

/-- A number that has a fraction or an exponent, and what follows. It must not
be beyond the largest double. -/
def readFloat (s : List Char) : Option (Toml × List Char) :=
  match afterSpecial? s with
  | some after => some (float (spelt s after), after)
  | none => do
    let (negative, body) := sign s
    let (ds, afterWhole) ← wholePart? body
    let (fs, afterFraction) := (fraction? afterWhole).getD ([], afterWhole)
    let (e, after) := (exponent? afterFraction).getD (0, afterFraction)
    if after.length = afterWhole.length then none
    if !negative ∧
      Text.beyondDoubles (numberOf 10 (ds ++ fs)) (e - fs.length) then none
    return (float (spelt s after), after)

/-! ## Dates and times -/

/-- The number of exactly `n` digits, if it is from `low` to `high`, and what
follows. -/
def field? (n low high : Nat) (s : List Char) : Option (Nat × List Char) :=
  let ds := s.take n
  let v := numberOf 10 ds
  if ds.length = n ∧ ds.all Char.isDigit ∧ low ≤ v ∧ v ≤ high then
    some (v, s.drop n)
  else none

/-- What follows a character. -/
def after? (c : Char) : List Char → Option (List Char)
  | d :: rest => if d = c then some rest else none
  | [] => none

/-- How many days a month has. -/
def daysIn (year month : Nat) : Nat :=
  if month = 2 then
    if year % 4 = 0 ∧ (year % 100 ≠ 0 ∨ year % 400 = 0) then 29 else 28
  else if month = 4 ∨ month = 6 ∨ month = 9 ∨ month = 11 then 30
  else 31

/-- What follows a date. -/
def afterDate? (s : List Char) : Option (List Char) := do
  let (year, s) ← field? 4 0 9999 s
  let (month, s) ← field? 2 1 12 (← after? '-' s)
  let (_, s) ← field? 2 1 (daysIn year month) (← after? '-' s)
  return s

/-- What follows a fraction of a second, if there is one. -/
def afterSecondFraction (s : List Char) : List Char :=
  match s with
  | '.' :: rest =>
    if (rest.takeWhile Char.isDigit).isEmpty then s
    else rest.dropWhile Char.isDigit
  | s => s

/-- What follows a time of day. -/
def afterTime? (s : List Char) : Option (List Char) := do
  let (_, s) ← field? 2 0 23 s
  let (_, s) ← field? 2 0 59 (← after? ':' s)
  let (_, s) ← field? 2 0 60 (← after? ':' s)
  return afterSecondFraction s

/-- What follows the distance from universal time. -/
def afterOffset? : List Char → Option (List Char)
  | c :: rest =>
    if c = 'Z' ∨ c = 'z' then some rest
    else if c = '+' ∨ c = '-' then do
      let (_, s) ← field? 2 0 23 rest
      let (_, s) ← field? 2 0 59 (← after? ':' s)
      return s
    else none
  | [] => none

/-- What follows the time of day that belongs to a date, if there is one. -/
def afterTimeOfDate (s : List Char) : List Char :=
  match s with
  | c :: rest =>
    if c = 'T' ∨ c = 't' ∨ c = ' ' then
      match afterTime? rest with
      | none => s
      | some after => (afterOffset? after).getD after
    else s
  | [] => s

/-- A date, a time or both, and what follows. -/
def readTime (s : List Char) : Option (Toml × List Char) := do
  let after ← (afterDate? s).map afterTimeOfDate <|> afterTime? s
  return (time (spelt s after), after)

/-- A numeral of any kind, and what follows. -/
def readNumeral (s : List Char) : Option (Toml × List Char) :=
  readTime s <|> readFloat s <|> readInteger s

end CouncilLedger.Toml
