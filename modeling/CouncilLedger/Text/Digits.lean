/-!
# Digits

Numbers as digits of text.
-/

namespace CouncilLedger.Text

/-- The value of a hexadecimal digit. -/
def digitValue? (c : Char) : Option Nat :=
  if '0' ≤ c ∧ c ≤ '9' then some (c.toNat - 48)
  else if 'a' ≤ c ∧ c ≤ 'f' then some (c.toNat - 87)
  else if 'A' ≤ c ∧ c ≤ 'F' then some (c.toNat - 55)
  else none

/-- The number that some hexadecimal digits stand for, if they are such. -/
def hexNumber? (ds : List Char) : Option Nat :=
  ds.foldlM (fun n d => (digitValue? d).map (16 * n + ·)) 0

/-- The number that some decimal digits stand for. -/
def decimal (ds : List Char) : Nat := Nat.ofDigitChars 10 ds 0

theorem decimal_toDigits (n : Nat) : decimal (Nat.toDigits 10 n) = n :=
  Nat.ofDigitChars_toDigits (by decide) (by decide)

/-! ## Doubles -/

/-- The least number that lies beyond the largest double when it is rounded to
the nearest one: half a step above it, where the tie goes to the even side. -/
def doubleBound : Nat := Nat.pow 2 1024 - Nat.pow 2 970

/-- Whether `m · 10^e`, rounded to the nearest double, is beyond the largest
one. -/
def beyondDoubles (m : Nat) (e : Int) : Bool :=
  let size := (Nat.toDigits 10 m).length
  if m = 0 then false
  else if e + size > 400 then true
  else if e + size < 0 then false
  else if 0 ≤ e then doubleBound ≤ m * Nat.pow 10 e.toNat
  else doubleBound * Nat.pow 10 (-e).toNat ≤ m

/-- A number rounded to 53 significant bits, a tie to the even neighbour. -/
def roundToDouble (n : Nat) : Nat :=
  let unit := Nat.pow 2 (n.log2 - 52)
  let below := n / unit
  let rest := n % unit
  if unit < 2 * rest ∨ (unit = 2 * rest ∧ below % 2 = 1) then (below + 1) * unit
  else below * unit

example : roundToDouble 0x1fffffffffffff = 0x1fffffffffffff := by decide
example : roundToDouble 0x20000000000001 = 0x20000000000000 := by decide
example : roundToDouble 0x20000000000003 = 0x20000000000004 := by decide

end CouncilLedger.Text
