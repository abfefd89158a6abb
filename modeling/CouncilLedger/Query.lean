import CouncilLedger.Chain

/-!
# Queries

What can be asked about a chain. A query checks what it is asked first, so that
a malformed identifier is told apart from one that names nothing. Times of
proposals and delegations count as of the clock.
-/

namespace CouncilLedger

/-! ## Answers -/

/-- What an account has. -/
structure Holding where
  address : String
  balance : Amount
  /-- The nonce that the account sends with next. -/
  nonce : UInt64
deriving DecidableEq

/-- What the treasury has, and how many proposals it has paid. -/
structure TreasuryReport where
  balance : Amount
  fundedProposals : Nat
deriving DecidableEq

/-- The votes on a proposal with its status. -/
structure Count where
  proposal : String
  status : Status
  tally : Tally
deriving DecidableEq

/-- A delegation, and whether it is in force. -/
structure Loan where
  delegation : Delegation
  isActive : Bool
deriving DecidableEq

/-- What an account can vote with, by where it comes from. -/
structure VotingPower where
  address : String
  own : Amount
  delegated : Amount
  effective : Amount
deriving DecidableEq

/-- The chain in figures. -/
structure Summary where
  height : UInt64
  tip : Digest
  tipTimestamp : UInt64
  supply : Amount
  treasury : Amount
  blocks : Nat
  transactions : Nat
  proposals : Nat
  holders : Nat
deriving DecidableEq

namespace Chain

/-! ## Blocks and transactions -/

/-- The block of a hash or a height. -/
def findBlock (c : Chain) (key : String) : Except Rejection Block := do
  c.archive.block (← Ledger.wellFormed (BlockKey.parse key))

/-- The transaction of a hash. -/
def findTransaction (c : Chain) (hash : String) :
    Except Rejection Transaction := do
  c.archive.transaction (← Ledger.wellFormed (Digest.ofHex hash))

/-! ## Tokens -/

/-- What an account has. -/
def holding (c : Chain) (address : String) : Except Rejection Holding := do
  Ledger.wellFormed (Address.check address)
  return ⟨address, c.accounts.balance address, c.accounts.nonce address⟩

/-- What the treasury has. -/
def treasuryReport (c : Chain) : TreasuryReport :=
  ⟨c.accounts.treasury, c.council.fundedCount⟩

/-! ## Proposals -/

/-- All proposals in the order of their creation. -/
def findProposals (c : Chain) (clock : UInt64) : List Proposal :=
  c.council.proposalsAt clock c.standing.electorateAt

/-- The proposal of an id. -/
def findProposal (c : Chain) (clock : UInt64) (id : String) :
    Except Rejection Proposal := do
  c.council.proposalAt (← Ledger.wellFormed (Council.normalizeId id)) clock
    c.standing.electorateAt

/-- The votes on a proposal by voter. -/
def findVotes (c : Chain) (clock : UInt64) (id : String) :
    Except Rejection (List Vote) := do
  return (← c.findProposal clock id).votes.values

/-- The sums of the votes on a proposal. -/
def findCount (c : Chain) (clock : UInt64) (id : String) :
    Except Rejection Count := do
  let id ← Ledger.wellFormed (Council.normalizeId id)
  let p ← c.council.proposalAt id clock c.standing.electorateAt
  return ⟨id, p.status, p.tally⟩

/-! ## Delegations -/

/-- The latest delegation of an account. -/
def findLoan (c : Chain) (clock : UInt64) (delegator : String) :
    Except Rejection Loan := do
  Ledger.wellFormed (Address.check delegator)
  match c.council.delegations.get? delegator with
  | none => throw (.notFound (.delegation delegator))
  | some d => return ⟨d, d.isActiveAt clock⟩

/-- The delegations in force by delegator. -/
def findLoans (c : Chain) (clock : UInt64) : List Loan :=
  (c.council.delegations.active clock).map fun d => ⟨d, true⟩

/-- What an account can vote with. -/
def votingPower (c : Chain) (clock : UInt64) (address : String) :
    Except Rejection VotingPower := do
  Ledger.wellFormed (Address.check address)
  return {
    address
    own := c.standing.own address clock
    delegated := c.standing.delegated address clock
    effective := c.standing.effective address clock }

/-! ## The whole chain -/

/-- The chain in figures. -/
def summary (c : Chain) : Summary where
  height := c.height
  tip := (c.tip.map (·.hash)).getD .zero
  tipTimestamp := (c.tip.map (·.timestamp)).getD 0
  supply := c.accounts.supply
  treasury := c.accounts.treasury
  blocks := c.archive.blocks.size
  transactions := c.archive.transactions.size
  proposals := c.council.proposals.length
  holders := c.accounts.holderCount

end Chain
end CouncilLedger
