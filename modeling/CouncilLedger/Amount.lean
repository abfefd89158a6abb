/-!
# Amounts

Token amounts, powers, heights, nonces and times are 64-bit words. This module
holds the three ways in which they are combined: a sum that reports overflow,
a sum that stops at the largest amount, and the floor of the square root.
-/

namespace CouncilLedger

/-- A 64-bit count of tokens (also of voting power). -/
abbrev Amount := UInt64

namespace Amount

/-- The largest amount. -/
def largest : Amount := 0xFFFFFFFFFFFFFFFF

/-- The sum, or `none` when it does not fit into 64 bits. -/
def add? (a b : Amount) : Option Amount :=
  if a.toNat + b.toNat < UInt64.size then some (a + b) else none

/-- The sum, or the largest amount when it does not fit into 64 bits. -/
def addCapped (a b : Amount) : Amount :=
  (add? a b).getD largest

theorem toNat_of_add? {a b c : Amount} (h : add? a b = some c) :
    c.toNat = a.toNat + b.toNat := by
  unfold add? at h
  split at h
  · next hlt =>
    cases h
    rw [UInt64.toNat_add]
    exact Nat.mod_eq_of_lt hlt
  · cases h

theorem add?_eq_none_iff {a b : Amount} :
    add? a b = none ↔ UInt64.size ≤ a.toNat + b.toNat := by
  unfold add?
  split <;> simp <;> omega

theorem toNat_addCapped (a b : Amount) :
    (addCapped a b).toNat = min (a.toNat + b.toNat) (UInt64.size - 1) := by
  unfold addCapped
  cases h : add? a b with
  | some c =>
    have hc := toNat_of_add? h
    have := c.toNat_lt
    simp only [Option.getD_some, UInt64.size]
    omega
  | none =>
    have := add?_eq_none_iff.mp h
    rw [Option.getD_none, show largest.toNat = UInt64.size - 1 from rfl]
    omega

/-! ## Square root -/

/-- Newton's iteration for the square root of `n` from the estimate `x`, whose
successor is `y`; it ends at the first estimate that does not decrease. -/
def rootFrom (n x y : UInt64) : UInt64 :=
  if y < x then rootFrom n y ((y + n / y) / 2) else x
termination_by x.toNat
decreasing_by exact UInt64.lt_iff_toNat_lt.mp ‹y < x›

/-- The floor of the square root. The first estimate is `n` itself and the
second its half rounded up, which is formed without overflow. -/
def isqrt (n : Amount) : Amount :=
  if n < 2 then n else rootFrom n n (n / 2 + (n &&& 1))

end Amount
end CouncilLedger
