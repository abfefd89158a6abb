/-!
# Hexadecimal text of bytes

Two lower-case digits a byte. Digits are read in either case, and reading
reports the first character that is no digit.
-/

namespace CouncilLedger.Text

/-- The digit for a value below 16. -/
def hexDigit (n : UInt8) : Char :=
  if n < 10 then Char.ofNat (48 + n.toNat) else Char.ofNat (87 + n.toNat)

/-- The two digits of a byte. -/
def hexPair (b : UInt8) : List Char := [hexDigit (b >>> 4), hexDigit (b &&& 15)]

/-- The digits of a list of bytes. -/
def toHex (bytes : List UInt8) : String := String.ofList (bytes.flatMap hexPair)

/-- The value of a digit given as its character's code. -/
def hexValue? (c : UInt8) : Option UInt8 :=
  if 48 ≤ c ∧ c ≤ 57 then some (c - 48)
  else if 97 ≤ c ∧ c ≤ 102 then some (c - 87)
  else if 65 ≤ c ∧ c ≤ 70 then some (c - 55)
  else none

/-- The bytes that pairs of digits stand for, or the first code that is no digit
with its position, counted from `start`. A last single digit is left out. -/
def ofHexCodes (start : Nat) : List UInt8 → Except (UInt8 × Nat) (List UInt8)
  | high :: low :: rest =>
    match hexValue? high, hexValue? low with
    | none, _ => .error (high, start)
    | some _, none => .error (low, start + 1)
    | some h, some l =>
      do return (h <<< 4 ||| l) :: (← ofHexCodes (start + 2) rest)
  | _ => .ok []

theorem length_ofHexCodes :
    ∀ {codes : List UInt8} {start : Nat} {bytes : List UInt8},
      ofHexCodes start codes = .ok bytes → bytes.length = codes.length / 2
  | [], _, _, h => by cases h; rfl
  | [_], _, _, h => by cases h; simp
  | high :: low :: rest, start, bytes, h => by
    unfold ofHexCodes at h
    split at h
    · cases h
    · cases h
    · cases hrest : ofHexCodes (start + 2) rest with
      | error e => simp [hrest, Bind.bind, Except.bind] at h
      | ok tail =>
        simp only [hrest, Bind.bind, Except.bind, Pure.pure, Except.pure,
          Except.ok.injEq] at h
        have := length_ofHexCodes hrest
        subst h
        simp only [List.length_cons]
        omega

end CouncilLedger.Text
