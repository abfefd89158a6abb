import CouncilLedger.Accounts.Json
import CouncilLedger.Council
import CouncilLedger.Proposal.Json

/-!
# JSON of the council

Rules and the whole state of governance as records.
-/

namespace CouncilLedger

/-! ## Rules -/

/-- Rules as a record. -/
def Rules.toJson (r : Rules) : Json :=
  .obj [("min_proposal_balance", .word r.minProposalBalance),
    ("max_duration_secs", .word r.maxDuration),
    ("quorum_percent", .nat r.quorumPercent.toNat)]

/-- The rules of a record, in which each part may be absent. -/
def Rules.ofJson? (v : Json) : Option Rules := do
  let r ← v.record? ["min_proposal_balance", "max_duration_secs",
    "quorum_percent"]
  let default : Rules := {}
  return {
    minProposalBalance :=
      ← r.withDefault "min_proposal_balance"
        default.minProposalBalance Json.word?
    maxDuration := ← r.withDefault "max_duration_secs"
      default.maxDuration Json.word?
    quorumPercent := ← r.withDefault "quorum_percent"
      default.quorumPercent Json.byte? }

/-! ## The council -/

namespace Council

/-- The state of governance as a record. -/
def toJson (c : Council) : Json :=
  .obj [("params", c.rules.toJson),
    ("proposals", .arr (c.proposals.map (·.toJson))),
    ("delegations", .map Delegation.toJson c.delegations)]

/-- The state of governance of a record. -/
def ofJson? (v : Json) : Option Council := do
  let r ← v.record? ["params", "proposals", "delegations"]
  return {
    rules := ← r.required "params" Rules.ofJson?
    proposals := ← r.required "proposals" (Json.list? Proposal.ofJson?)
    delegations := ← r.withDefault "delegations" .empty
      (Json.map? Delegation.ofJson?) }

end Council
end CouncilLedger
