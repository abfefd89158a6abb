import CouncilLedger.Ballot

/-!
# Electorates

How much voting power there is in all, in each of the voting modes.
-/

namespace CouncilLedger

/-- The voting power of all accounts together. -/
structure Electorate where
  holders : UInt64
  weighted : Amount
  quadratic : Amount
deriving DecidableEq, Repr

namespace Electorate

/-- No voters. -/
def none : Electorate := ⟨0, 0, 0⟩

/-- The power of a voting mode. -/
def power (e : Electorate) : VotingMode → Amount
  | .simple => e.holders
  | .weighted => e.weighted
  | .quadratic => e.quadratic

/-- The electorate with one more account that votes with `balance`. -/
def count (e : Electorate) (balance : Amount) : Electorate :=
  if balance = 0 then e
  else ⟨e.holders + 1, Amount.addCapped e.weighted balance,
    Amount.addCapped e.quadratic (Amount.isqrt balance)⟩

/-- The electorate of accounts that vote with the given balances. -/
def ofBalances (balances : List Amount) : Electorate :=
  balances.foldl count none

end Electorate
end CouncilLedger
