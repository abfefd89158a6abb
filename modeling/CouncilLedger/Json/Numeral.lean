import CouncilLedger.Json.Basic
import CouncilLedger.Text.Digits

/-!
# JSON numerals

A numeral is a whole number, with a fraction or an exponent behind it or not.
One that is no 64-bit word denotes a double, and whether that is finite is
decided on an approximation: on a significand of one word, times a power of ten.
-/

namespace CouncilLedger.Json

/-! ## Range -/

/-- The number of the digits behind those of `m` as long as it is that of a
word, and the digits that are left. -/
def packDigits (m : Nat) : List Char → Nat × List Char
  | [] => (m, [])
  | d :: ds =>
    let next := 10 * m + (d.toNat - 48)
    if next < UInt64.size then packDigits next ds else (m, d :: ds)

/-- Whether the double of `whole . fraction · 10^e` is finite. The digits of the
whole part that do not fit into the significand raise its exponent; those of the
fraction are passed over. The significand and the power of ten are rounded to
doubles before they are multiplied. -/
def isFinite (whole fraction : List Char) (e : Int) : Bool :=
  let (significand, raising) := packDigits 0 whole
  let (significand, unused) := packDigits significand fraction
  let scale := e + raising.length - (fraction.length - unused.length : Nat)
  significand == 0 || scale < 0 ||
    (scale ≤ 308 && Text.roundToDouble significand *
      Text.roundToDouble (Nat.pow 10 scale.toNat) < Text.doubleBound)

/-! ## Reading -/

/-- The digits after a decimal point, where there is one; `none` if it has
none. -/
def readFraction : List Char → Option (List Char × List Char)
  | '.' :: rest =>
    let ds := rest.takeWhile Char.isDigit
    if ds.isEmpty then none else some (ds, rest.dropWhile Char.isDigit)
  | s => some ([], s)

/-- The exponent with its sign, where there is one; `none` if it has no
digits. -/
def readExponent (s : List Char) : Option (Option Int × List Char) :=
  match s with
  | c :: rest =>
    if c = 'e' ∨ c = 'E' then
      let (negative, body) :=
        match rest with
        | '-' :: body => (true, body)
        | '+' :: body => (false, body)
        | body => (false, body)
      let ds := body.takeWhile Char.isDigit
      if ds.isEmpty then none
      else
        let e : Int := Text.decimal ds
        some (some (if negative then -e else e), body.dropWhile Char.isDigit)
    else some (none, s)
  | [] => some (none, s)

/-- The value of a numeral behind its sign, and the rest. -/
def readUnsigned (negative : Bool) (s : List Char) :
    Option (Json × List Char) := do
  let ds := s.takeWhile Char.isDigit
  if ds.isEmpty || (ds.head? == some '0' && ds.length > 1) then none
  let (fs, afterFraction) ← readFraction (s.dropWhile Char.isDigit)
  let (e?, after) ← readExponent afterFraction
  let m := Text.decimal ds
  if fs.isEmpty && e?.isNone && !negative && m < UInt64.size then
    return (int m, after)
  if fs.isEmpty && e?.isNone && negative && 0 < m && m ≤ 0x8000000000000000 then
    return (int (-m), after)
  if !isFinite ds fs (e?.getD 0) then return (unreadable, after)
  let spelt := s.take (s.length - after.length)
  return (fraction (String.ofList (if negative then '-' :: spelt else spelt)),
    after)

/-- A numeral and the rest. -/
def readNumeral : List Char → Option (Json × List Char)
  | '-' :: rest => readUnsigned true rest
  | s => readUnsigned false s

end CouncilLedger.Json
