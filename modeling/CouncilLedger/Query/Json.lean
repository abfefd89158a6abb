import CouncilLedger.Block.Json
import CouncilLedger.Council.Json
import CouncilLedger.Query

/-!
# JSON of answers

Answers to queries and receipts of writes as records.
-/

namespace CouncilLedger

/-- A tip as a record. -/
def Tip.toJson (t : Tip) : Json :=
  .obj [("height", .word t.height), ("hash", .digest t.hash),
    ("timestamp", .word t.timestamp)]

/-- The parts of a receipt. -/
def Receipt.toMembers (r : Receipt) : List (String × Json) :=
  [("tx_hash", .digest r.transaction), ("block_hash", .digest r.block),
   ("block_height", .word r.height), ("kind", .str r.kind.name)]

/-- A receipt as a record. -/
def Receipt.toJson (r : Receipt) : Json := .obj r.toMembers

/-- What an account has as a record. -/
def Holding.toJson (h : Holding) : Json :=
  .obj [("address", .str h.address), ("balance", .word h.balance),
    ("nonce", .word h.nonce)]

/-- What the treasury has as a record. -/
def TreasuryReport.toJson (t : TreasuryReport) : Json :=
  .obj [("address", .str Address.treasury), ("balance", .word t.balance),
    ("funded_proposals", .nat t.fundedProposals)]

/-- The supply as a record. -/
def supplyJson (supply : Amount) : Json := .obj [("total_supply", .word supply)]

/-- A count of votes as a record. -/
def Count.toJson (c : Count) : Json :=
  .obj ([("proposal_id", .str c.proposal), ("status", .str c.status.name)] ++
    c.tally.toMembers)

/-- A delegation with its state as a record. -/
def Loan.toJson (l : Loan) : Json :=
  .obj (l.delegation.toMembers ++ [("active", .bool l.isActive)])

/-- Voting power as a record. -/
def VotingPower.toJson (p : VotingPower) : Json :=
  .obj [("address", .str p.address), ("own", .word p.own),
    ("delegated", .word p.delegated), ("effective", .word p.effective)]

/-- The chain in figures as a record. A chain never serves damaged state. -/
def Summary.toJson (s : Summary) : Json :=
  .obj [("height", .word s.height), ("tip", .digest s.tip),
    ("tip_timestamp", .word s.tipTimestamp), ("total_supply", .word s.supply),
    ("treasury_balance", .word s.treasury), ("blocks", .nat s.blocks),
    ("transactions", .nat s.transactions), ("proposals", .nat s.proposals),
    ("holders", .nat s.holders), ("tainted", .bool false)]

end CouncilLedger
