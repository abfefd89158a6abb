import CouncilLedger.Config
import CouncilLedger.Council.Json

/-!
# JSON of configurations

A configuration as a record in which every part may be absent.
-/

namespace CouncilLedger

/-- An allocation as a record. -/
def Allocation.toJson (a : Allocation) : Json :=
  .obj [("address", .str a.address), ("amount", .word a.amount)]

/-- The allocation of a record. -/
def Allocation.ofJson? (v : Json) : Option Allocation := do
  let r ← v.record? ["address", "amount"]
  return {
    address := ← r.required "address" Json.text?
    amount := ← r.required "amount" Json.word? }

namespace ChainSettings

/-- Settings of the chain as a record. -/
def toJson (s : ChainSettings) : Json :=
  .obj ([("genesis_timestamp", .word s.genesisTimestamp),
    ("checkpoint_interval", .word s.checkpointInterval)] ++
    Json.whenSome "default_sender" .str s.defaultSender)

/-- A text that may be absent. -/
def sender? : Json → Option (Option String)
  | .null => some none
  | v => v.text?.map some

/-- The settings of a record. -/
def ofJson? (v : Json) : Option ChainSettings := do
  let r ← v.record? ["genesis_timestamp", "checkpoint_interval",
    "default_sender"]
  let default : ChainSettings := {}
  return {
    genesisTimestamp := ← r.withDefault "genesis_timestamp"
      default.genesisTimestamp Json.word?
    checkpointInterval :=
      ← r.withDefault "checkpoint_interval" default.checkpointInterval Json.word?
    defaultSender := ← r.withDefault "default_sender"
      default.defaultSender sender? }

end ChainSettings

namespace Config

/-- The initial balance in the section on the treasury, zero unless given
there. -/
def treasuryOfJson? (v : Json) : Option Amount := do
  (← v.record? ["initial_balance"]).withDefault "initial_balance" 0 Json.word?

/-- A configuration as a record. -/
def toJson (c : Config) : Json :=
  .obj [("chain", c.chain.toJson), ("governance", c.rules.toJson),
    ("treasury", .obj [("initial_balance", .word c.treasury)]),
    ("allocations", .arr (c.allocations.map (·.toJson)))]

/-- The configuration of a record. -/
def ofJson? (v : Json) : Option Config := do
  let r ← v.record? ["chain", "governance", "treasury", "allocations"]
  let default : Config := {}
  return {
    chain := ← r.withDefault "chain" default.chain ChainSettings.ofJson?
    rules := ← r.withDefault "governance" default.rules Rules.ofJson?
    treasury := ← r.withDefault "treasury" default.treasury treasuryOfJson?
    allocations := ← r.withDefault "allocations" default.allocations
      (Json.list? Allocation.ofJson?) }

end Config
end CouncilLedger
