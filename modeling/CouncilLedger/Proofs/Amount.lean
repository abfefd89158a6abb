import CouncilLedger.Ballot
import CouncilLedger.Proofs.SquareRoot

/-!
# Amounts as natural numbers

A sum that stops at the largest amount is the sum or that. The weight of a
balance grows with the balance and never exceeds it.
-/

namespace CouncilLedger

/-- The root of a sum is at most the sum of the roots. -/
theorem sqrt_add_le (a b : Nat) :
    Nat.sqrt (a + b) ≤ Nat.sqrt a + Nat.sqrt b := by
  have ha := Nat.sqrt_le_add a
  have hb := Nat.sqrt_le_add b
  refine Nat.lt_succ_iff.mp (Nat.sqrt_lt.mpr ?_)
  nlinarith

namespace Amount

/-! ## The larger of two amounts -/

theorem toNat_max (a b : Amount) : (max a b).toNat = max a.toNat b.toNat := by
  show (if a ≤ b then b else a).toNat = _
  split
  · next h => exact (Nat.max_eq_right h).symm
  · next h => exact (Nat.max_eq_left (Nat.le_of_lt (UInt64.not_le.mp h))).symm

theorem le_max_right (a b : Amount) : b ≤ max a b := by
  rw [UInt64.le_iff_toNat_le, toNat_max]
  exact Nat.le_max_right _ _

theorem max_max (a b : Amount) : max a (max a b) = max a b := by
  rw [← UInt64.toNat_inj, toNat_max, toNat_max]
  omega

/-! ## Sums that stop at the largest amount -/

theorem toNat_foldl_addCapped {α : Type} (f : α → Amount) (l : List α)
    (start : Amount) :
    (l.foldl (fun sum a => addCapped sum (f a)) start).toNat =
      min (start.toNat + (l.map fun a => (f a).toNat).sum)
        (UInt64.size - 1) := by
  induction l generalizing start with
  | nil =>
    have hbound := start.toNat_lt
    simp only [List.foldl_nil, List.map_nil, List.sum_nil, UInt64.size]
    omega
  | cons a rest ih =>
    rw [List.foldl_cons, ih, toNat_addCapped, List.map_cons, List.sum_cons]
    omega

end Amount

/-! ## Weights -/

namespace VotingMode

variable (mode : VotingMode)

theorem toNat_weight (balance : Amount) : (mode.weight balance).toNat =
    if balance.toNat = 0 then 0
    else match mode with
      | simple => 1
      | weighted => balance.toNat
      | quadratic => Nat.sqrt balance.toNat := by
  unfold weight
  have hzero : balance = 0 ↔ balance.toNat = 0 :=
    (UInt64.toNat_inj (b := 0)).symm
  by_cases h : balance = 0
  · rw [if_pos h, if_pos (hzero.mp h)]
    rfl
  · rw [if_neg h, if_neg (mt hzero.mpr h)]
    cases mode with
    | simple => rfl
    | weighted => rfl
    | quadratic => exact Amount.toNat_isqrt balance

theorem weight_zero : mode.weight 0 = 0 := if_pos rfl

theorem weight_le (balance : Amount) :
    (mode.weight balance).toNat ≤ balance.toNat := by
  rw [toNat_weight]
  split
  · exact Nat.zero_le _
  · cases mode with
    | simple => show 1 ≤ _; omega
    | weighted => exact Nat.le_refl _
    | quadratic => exact Nat.sqrt_le_self _

theorem weight_mono {a b : Amount} (h : a.toNat ≤ b.toNat) :
    (mode.weight a).toNat ≤ (mode.weight b).toNat := by
  rw [toNat_weight, toNat_weight]
  by_cases ha : a.toNat = 0
  · rw [if_pos ha]
    exact Nat.zero_le _
  · rw [if_neg ha, if_neg (by omega)]
    cases mode with
    | simple => exact Nat.le_refl _
    | weighted => exact h
    | quadratic => exact Nat.sqrt_le_sqrt h

/-- Only a balance of nothing weighs nothing. -/
theorem toNat_weight_eq_zero_iff {balance : Amount} :
    (mode.weight balance).toNat = 0 ↔ balance.toNat = 0 := by
  rw [toNat_weight]
  split
  · next hzero => exact iff_of_true rfl hzero
  · next hsome =>
    refine iff_of_false ?_ hsome
    cases mode with
    | simple => exact Nat.one_ne_zero
    | weighted => exact hsome
    | quadratic => exact mt Nat.sqrt_eq_zero.mp hsome

theorem weight_ne_zero_iff {balance : Amount} :
    mode.weight balance ≠ 0 ↔ 0 < balance.toNat := by
  have hzero : mode.weight balance = 0 ↔ balance.toNat = 0 :=
    UInt64.toNat_inj.symm.trans mode.toNat_weight_eq_zero_iff
  rw [ne_eq, hzero, Nat.pos_iff_ne_zero]

/-- A balance does not weigh more than its parts. -/
theorem weight_add_le {a b c : Amount} (h : c.toNat ≤ a.toNat + b.toNat) :
    (mode.weight c).toNat ≤ (mode.weight a).toNat + (mode.weight b).toNat := by
  by_cases hc : c.toNat = 0
  · rw [(mode.toNat_weight_eq_zero_iff).mpr hc]
    exact Nat.zero_le _
  · cases mode with
    | simple =>
      simp only [toNat_weight, if_neg hc]
      split <;> split <;> omega
    | weighted =>
      simp only [toNat_weight, if_neg hc]
      split <;> split <;> omega
    | quadratic =>
      have hroot :
          ∀ n : Amount, (quadratic.weight n).toNat = Nat.sqrt n.toNat := by
        intro n
        rw [toNat_weight]
        split
        · next hzero => rw [hzero, Nat.sqrt_zero]
        · rfl
      rw [hroot, hroot, hroot]
      exact Nat.le_trans (Nat.sqrt_le_sqrt h) (sqrt_add_le _ _)

end VotingMode
end CouncilLedger
