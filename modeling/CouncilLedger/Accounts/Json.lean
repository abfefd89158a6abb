import CouncilLedger.Accounts
import CouncilLedger.Delegation
import CouncilLedger.Json.Record

/-!
# JSON of accounts

Balances, nonces and the supply as a record, and what an account lends.
-/

namespace CouncilLedger

/-! ## Accounts -/

namespace Accounts

/-- Accounts as a record. -/
def toJson (a : Accounts) : Json :=
  .obj [("balances", .map Json.word a.balances),
    ("nonces", .map Json.word a.nonces), ("total_supply", .word a.supply)]

/-- The accounts of a record. -/
def ofJson? (v : Json) : Option Accounts := do
  let r ← v.record? ["balances", "nonces", "total_supply"]
  return {
    balances := ← r.required "balances" (Json.map? Json.word?)
    nonces := ← r.required "nonces" (Json.map? Json.word?)
    supply := ← r.required "total_supply" Json.word? }

end Accounts

/-! ## Delegations -/

namespace Delegation

/-- The parts of a delegation. -/
def toMembers (d : Delegation) : List (String × Json) :=
  [("delegator", .str d.delegator), ("delegate", .str d.delegate),
   ("start_time", .word d.startsAt), ("end_time", .word d.endsAt)] ++
    Json.whenSome "revoked_at" Json.word d.revokedAt ++
    [("tx_hash", .digest d.transaction)]

/-- A delegation as a record. -/
def toJson (d : Delegation) : Json := .obj d.toMembers

/-- The delegation of a record. -/
def ofJson? (v : Json) : Option Delegation := do
  let r ← v.record? ["delegator", "delegate", "start_time", "end_time",
    "revoked_at", "tx_hash"]
  return {
    delegator := ← r.required "delegator" Json.text?
    delegate := ← r.required "delegate" Json.text?
    startsAt := ← r.required "start_time" Json.word?
    endsAt := ← r.required "end_time" Json.word?
    revokedAt := ← r.optional "revoked_at" Json.word?
    transaction := ← r.required "tx_hash" Json.digest? }

end Delegation
end CouncilLedger
