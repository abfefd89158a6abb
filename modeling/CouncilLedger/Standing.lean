import CouncilLedger.Accounts
import CouncilLedger.Delegation
import CouncilLedger.Proposal.Basic

/-!
# Standing

Balances seen through the delegations in force: what an account can vote with,
what stands behind a vote of it, and how large the electorate is.
-/

namespace CouncilLedger

/-- Accounts together with the delegations among them. -/
structure Standing where
  accounts : Accounts
  delegations : Delegations

/-- What a vote is weighted from: a balance, and the delegators it includes. -/
structure Backing where
  balance : Amount
  delegators : List String
deriving DecidableEq, Repr

namespace Standing

/-- The balance of an account that it has not lent. -/
def own (s : Standing) (address : String) (t : UInt64) : Amount :=
  if (s.delegations.delegateOf? address t).isSome then 0
  else s.accounts.balance address

/-- The balances lent to an account. -/
def delegated (s : Standing) (address : String) (t : UInt64) : Amount :=
  (s.delegations.toDelegate address t).foldl
    (fun sum d => Amount.addCapped sum (s.accounts.balance d.delegator)) 0

/-- All that an account can vote with. -/
def effective (s : Standing) (address : String) (t : UInt64) : Amount :=
  Amount.addCapped (s.own address t) (s.delegated address t)

/-- What stands behind a vote of an account on a proposal: its own balance and
those of its delegators whose power was not yet used on it. -/
def backing (s : Standing) (voter : String) (t : UInt64) (p : Proposal) :
    Backing :=
  ((s.delegations.toDelegate voter t).filter fun d =>
    !p.powerUsedBy d.delegator).foldl
    (fun b d => ⟨Amount.addCapped b.balance (s.accounts.balance d.delegator),
      b.delegators ++ [d.delegator]⟩) ⟨s.own voter t, []⟩

/-- Balances after the power of a delegator has moved to its delegate. -/
def lend (balances : SortedMap String Amount) (d : Delegation) :
    SortedMap String Amount :=
  let emptied := balances.insert d.delegator 0
  match balances.get? d.delegator with
  | none => emptied
  | some lent =>
    emptied.insert d.delegate (Amount.addCapped (emptied.getD d.delegate 0) lent)

/-- What each account outside the reserved ones votes with. -/
def votingBalances (s : Standing) (t : UInt64) : SortedMap String Amount :=
  (s.delegations.active t).foldl lend s.accounts.holdings

/-- The electorate at a time. -/
def electorateAt (s : Standing) (t : UInt64) : Electorate :=
  .ofBalances (s.votingBalances t).values

end Standing
end CouncilLedger
