import CouncilLedger.Proofs.Amount
import CouncilLedger.Proofs.SortedMap
import CouncilLedger.Proposal.Basic

/-!
# Tallies as natural numbers

A tally holds the sums of the weights behind each choice, as far as they fit
into 64 bits. It is exact when the weights of all votes do together.
-/

namespace CouncilLedger

/-- What a vote adds to the weight of a choice. -/
def Vote.weightFor (v : Vote) (choice : Choice) : Nat :=
  if v.choice = choice then v.weight.toNat else 0

theorem Vote.weightFor_le (v : Vote) (choice : Choice) :
    v.weightFor choice ≤ v.weight.toNat := by
  unfold weightFor
  split
  · exact Nat.le_refl _
  · exact Nat.zero_le _

namespace Proposal

/-- The sum of the weights of all votes. -/
def castWeight (p : Proposal) : Nat := (p.votes.values.map (·.weight.toNat)).sum

/-- The sum of the weights of the votes for a choice. -/
def weightOf (p : Proposal) (choice : Choice) : Nat :=
  ((p.votes.values.filter (·.choice = choice)).map (·.weight.toNat)).sum

variable (p : Proposal)

/-! ## Weights as sums over the votes -/

theorem weightOf_eq_sumBy (choice : Choice) :
    p.weightOf choice = p.votes.sumBy (·.weightFor choice) := by
  unfold weightOf SortedMap.sumBy
  induction p.votes.values with
  | nil => rfl
  | cons v rest ih =>
    rw [List.map_cons, List.sum_cons, ← ih, Vote.weightFor, List.filter_cons]
    by_cases hchoice : v.choice = choice
    · rw [if_pos (decide_eq_true hchoice), if_pos hchoice,
        List.map_cons, List.sum_cons]
    · rw [if_neg (by simpa using hchoice), if_neg hchoice, Nat.zero_add]

/-- A choice loses the weight of the vote that is replaced, if any, and gains
that of the new. -/
theorem weightOf_replace (voter : String) (v : Vote) (choice : Choice) :
    ({ p with votes := p.votes.insert voter v } : Proposal).weightOf choice +
        ((p.votes.get? voter).map (·.weightFor choice)).getD 0 =
      p.weightOf choice + v.weightFor choice := by
  rw [weightOf_eq_sumBy, weightOf_eq_sumBy]
  exact SortedMap.sumBy_insert _ p.votes voter v

theorem castWeight_replace (voter : String) (v : Vote) :
    ({ p with votes := p.votes.insert voter v } : Proposal).castWeight +
        ((p.votes.get? voter).map (·.weight.toNat)).getD 0 =
      p.castWeight + v.weight.toNat :=
  SortedMap.sumBy_insert (fun v : Vote => v.weight.toNat) p.votes voter v

/-! ## The sums that a tally holds -/

theorem toNat_sumOf (choice : Choice) :
    (sumOf choice p.votes.values).toNat =
      min (p.weightOf choice) (UInt64.size - 1) := by
  have hfilter :
      sumOf choice p.votes.values =
        (p.votes.values.filter (·.choice = choice)).foldl
          (fun sum v => Amount.addCapped sum v.weight) 0 := by
    rw [List.foldl_filter]
    simp only [decide_eq_true_eq]
    rfl
  rw [hfilter, Amount.toNat_foldl_addCapped, weightOf,
    UInt64.toNat_zero, Nat.zero_add]

/-- Each vote is for one of the choices. -/
theorem castWeight_eq :
    p.castWeight = p.weightOf .yes + p.weightOf .no + p.weightOf .abstain := by
  unfold castWeight weightOf
  induction p.votes.values with
  | nil => rfl
  | cons v rest ih =>
    rw [List.map_cons, List.sum_cons, ih]
    cases hchoice : v.choice <;> simp [hchoice] <;> omega

/-- On its way to the largest amount the sum of the three sides stops nowhere
else. -/
theorem toNat_cast :
    p.tally.cast.toNat = min p.castWeight (UInt64.size - 1) := by
  have hcast :
      p.tally.cast =
        Amount.addCapped (Amount.addCapped p.tally.yes p.tally.no)
          p.tally.abstain := rfl
  have hyes : p.tally.yes.toNat = _ := p.toNat_sumOf .yes
  have hno : p.tally.no.toNat = _ := p.toNat_sumOf .no
  have habstain : p.tally.abstain.toNat = _ := p.toNat_sumOf .abstain
  rw [hcast, Amount.toNat_addCapped, Amount.toNat_addCapped, hyes, hno,
    habstain, p.castWeight_eq]
  omega

/-- **A tally is exact** when the weights of all votes fit into 64 bits
together. -/
theorem tally_exact (h : p.castWeight < UInt64.size) :
    p.tally.yes.toNat = p.weightOf .yes ∧ p.tally.no.toNat = p.weightOf .no ∧
      p.tally.abstain.toNat = p.weightOf .abstain ∧
      p.tally.cast.toNat =
        p.tally.yes.toNat + p.tally.no.toNat + p.tally.abstain.toNat := by
  have hsum := p.castWeight_eq
  have hyes : p.tally.yes.toNat = _ := p.toNat_sumOf .yes
  have hno : p.tally.no.toNat = _ := p.toNat_sumOf .no
  have habstain : p.tally.abstain.toNat = _ := p.toNat_sumOf .abstain
  have hcast := p.toNat_cast
  omega

end Proposal
end CouncilLedger
