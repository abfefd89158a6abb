import CouncilLedger.Amount
import Mathlib.Data.Nat.Sqrt
import Mathlib.Tactic.Linarith

/-!
# The square root of an amount

Newton's iteration on words comes to the floor of the square root. No estimate
is below the root, and each is smaller than the one before it; the first that is
not ends the iteration. The invariant is `Amount.Estimates`. From it also
follows that no step leaves 64 bits and none divides by zero: `Amount.isqrt?`
looks after every operation, and agrees with `Amount.isqrt`. The main statement
is `Amount.isqrt_is_floor_of_root`.
-/

namespace CouncilLedger

/-- The next estimate of Newton's iteration is not below the root. -/
theorem lt_next_estimate_succ_sq {n x : Nat} (hx : 0 < x) :
    n < ((x + n / x) / 2 + 1) * ((x + n / x) / 2 + 1) := by
  have hn : n < x * (n / x + 1) := Nat.lt_mul_div_succ n hx
  have hsum : x + (n / x + 1) ≤ 2 * ((x + n / x) / 2 + 1) := by omega
  generalize n / x = q at *
  generalize (x + q) / 2 = y at *
  -- a product is at most the square of half the sum
  have hmean : 4 * (x * (q + 1)) ≤ (x + (q + 1)) * (x + (q + 1)) := by
    nlinarith [sq_nonneg ((x : Int) - (q + 1))]
  have hsquare := Nat.mul_self_le_mul_self hsum
  nlinarith

namespace Amount

/-! ## With an eye on every operation -/

/-- The quotient, or `none` when the divisor is zero. -/
def quotient? (a b : Amount) : Option Amount :=
  if b = 0 then none else some (a / b)

/-- The estimate that follows `x`. -/
def nextEstimate? (n x : Amount) : Option Amount := do
  let sum ← add? x (← quotient? n x)
  return sum / 2

/-- Newton's iteration from the estimate `x` and its successor `y`, up to the
first operation that has no result. -/
def rootFrom? (n x y : Amount) : Option Amount :=
  if y < x then do rootFrom? n y (← nextEstimate? n y) else some x
termination_by x.toNat
decreasing_by exact UInt64.lt_iff_toNat_lt.mp ‹y < x›

/-- The floor of the square root, or `none` when an operation on the way to it
has no result in 64 bits. -/
def isqrt? (n : Amount) : Option Amount :=
  if n < 2 then some n else do rootFrom? n n (← add? (n / 2) (n &&& 1))

theorem add?_eq_some {a b : Amount} (h : a.toNat + b.toNat < 2 ^ 64) :
    add? a b = some (a + b) :=
  if_pos h

theorem toNat_add_of_lt {a b : Amount} (h : a.toNat + b.toNat < 2 ^ 64) :
    (a + b).toNat = a.toNat + b.toNat :=
  toNat_of_add? (add?_eq_some h)

/-! ## What the iteration keeps -/

/-- The estimate `x` of the root of `n` is not below it, and `y` is the next
one. -/
structure Estimates (n x y : Amount) : Prop where
  two_le : 2 ≤ n.toNat
  pos : 0 < x.toNat
  not_below : n.toNat < (x.toNat + 1) * (x.toNat + 1)
  next : y.toNat = (x.toNat + n.toNat / x.toNat) / 2
  le_half : y.toNat ≤ 2 ^ 63

/-- The sum of the halves of a number, the larger one rounded up, does not leave
64 bits. -/
theorem half_add_odd_lt (n : Amount) :
    (n / 2).toNat + (n &&& 1).toNat < 2 ^ 64 := by
  have hbound := n.toNat_lt
  have hodd : (n &&& 1).toNat ≤ 1 := by
    rw [UInt64.toNat_and]
    exact Nat.and_le_right
  have hhalf : (n / 2).toNat = n.toNat / 2 := rfl
  omega

namespace Estimates

variable {n x y : Amount}

/-- The iteration starts with the number itself and its half. -/
theorem start (hn : 2 ≤ n.toNat) : Estimates n n (n / 2 + (n &&& 1)) := by
  have hbound := n.toNat_lt
  have hodd : (n &&& 1).toNat = n.toNat % 2 := by
    rw [UInt64.toNat_and]
    exact Nat.and_one_is_mod _
  have hstart : (n / 2 + (n &&& 1)).toNat = (n.toNat + 1) / 2 := by
    rw [toNat_add_of_lt n.half_add_odd_lt, hodd]
    show n.toNat / 2 + n.toNat % 2 = _
    omega
  refine ⟨hn, by omega, by nlinarith, ?_, by omega⟩
  rw [hstart, Nat.div_self (by omega)]

/-- The next estimate is not below the root either. -/
theorem next_not_below (h : Estimates n x y) :
    n.toNat < (y.toNat + 1) * (y.toNat + 1) :=
  h.next ▸ lt_next_estimate_succ_sq h.pos

theorem next_pos (h : Estimates n x y) : 0 < y.toNat := by
  have hlarge := h.two_le
  have hroot := h.next_not_below
  by_contra hzero
  rw [Nat.eq_zero_of_not_pos hzero] at hroot
  omega

/-- The sum for the estimate after the next stays below 2 ^ 64. -/
theorem sum_lt (h : Estimates n x y) : y.toNat + (n / y).toNat < 2 ^ 64 := by
  have hbound := n.toNat_lt
  have hhalf := h.le_half
  have hpos := h.next_pos
  rw [UInt64.toNat_div]
  by_cases hone : y.toNat = 1
  -- an estimate of 1 is the root of 3 at most, so its quotient is small
  · have hroot := h.next_not_below
    rw [hone] at hroot
    rw [hone, Nat.div_one]
    omega
  · have hquotient : n.toNat / y.toNat ≤ n.toNat / 2 :=
      Nat.div_le_div_left (by omega) (by omega)
    omega

/-- **One step of the iteration.** -/
theorem step (h : Estimates n x y) : Estimates n y ((y + n / y) / 2) := by
  have hsum := h.sum_lt
  have hnext : ((y + n / y) / 2).toNat = (y.toNat + n.toNat / y.toNat) / 2 := by
    rw [UInt64.toNat_div, toNat_add_of_lt hsum, UInt64.toNat_div]
    rfl
  refine ⟨h.two_le, h.next_pos, h.next_not_below, hnext, ?_⟩
  rw [UInt64.toNat_div] at hsum
  omega

theorem nextEstimate?_eq (h : Estimates n x y) :
    nextEstimate? n y = some ((y + n / y) / 2) := by
  have hne : y ≠ 0 := by
    rintro rfl
    exact Nat.lt_irrefl 0 h.next_pos
  rw [nextEstimate?, quotient?, if_neg hne]
  simp only [Option.bind_eq_bind, Option.bind_some, add?_eq_some h.sum_lt,
    Option.pure_def]

/-- Where the estimates do not decrease, they have come to the root. -/
theorem eq_sqrt (h : Estimates n x y) (hend : ¬ y < x) :
    x.toNat = Nat.sqrt n.toNat := by
  have hnext := h.next
  have hle : x.toNat ≤ n.toNat / x.toNat := by
    rw [UInt64.not_lt, UInt64.le_iff_toNat_le] at hend
    omega
  exact Nat.eq_sqrt.mpr ⟨(Nat.le_div_iff_mul_le h.pos).mp hle, h.not_below⟩

/-! ## The whole iteration -/

/-- The iteration ends at the root. -/
theorem toNat_rootFrom (h : Estimates n x y) :
    (rootFrom n x y).toNat = Nat.sqrt n.toNat := by
  induction x, y using rootFrom.induct n with
  | case1 x y hless ih =>
    rw [rootFrom, if_pos hless]
    exact ih h.step
  | case2 x y hmore =>
    rw [rootFrom, if_neg hmore]
    exact h.eq_sqrt hmore

/-- Every operation of the iteration has a result. -/
theorem rootFrom?_eq (h : Estimates n x y) :
    rootFrom? n x y = some (rootFrom n x y) := by
  induction x, y using rootFrom.induct n with
  | case1 x y hless ih =>
    rw [rootFrom, if_pos hless, rootFrom?, if_pos hless, h.nextEstimate?_eq]
    exact ih h.step
  | case2 x y hmore => rw [rootFrom, if_neg hmore, rootFrom?, if_neg hmore]

end Estimates

theorem toNat_isqrt (n : Amount) : (isqrt n).toNat = Nat.sqrt n.toNat := by
  unfold isqrt
  split
  · next hsmall =>
    have hlt : n.toNat < 2 := hsmall
    rw [Nat.eq_sqrt]
    obtain hn | hn : n.toNat = 0 ∨ n.toNat = 1 := by omega
    · rw [hn]
      decide
    · rw [hn]
      decide
  · next hlarge =>
      exact (Estimates.start (UInt64.not_lt.mp hlarge)).toNat_rootFrom

/-- No operation on the way to the root overflows or divides by zero. -/
theorem isqrt?_eq (n : Amount) : isqrt? n = some (isqrt n) := by
  unfold isqrt? isqrt
  split
  · rfl
  · next hlarge =>
    rw [add?_eq_some n.half_add_odd_lt]
    exact (Estimates.start (UInt64.not_lt.mp hlarge)).rootFrom?_eq

/-- **The root of an amount is the floor of its square root**, for all words up
to the largest one, and it is the same when every operation on the way is
checked: neither the halved start nor any sum of an estimate and a quotient
leaves 64 bits, and no division is by zero. -/
theorem isqrt_is_floor_of_root (n : Amount) :
    (isqrt n).toNat * (isqrt n).toNat ≤ n.toNat ∧
      n.toNat < ((isqrt n).toNat + 1) * ((isqrt n).toNat + 1) ∧
      isqrt? n = some (isqrt n) := by
  rw [toNat_isqrt]
  exact ⟨Nat.sqrt_le n.toNat, Nat.lt_succ_sqrt n.toNat, isqrt?_eq n⟩

end Amount
end CouncilLedger
