import CouncilLedger.Config
import CouncilLedger.Toml.Value

/-!
# TOML of configurations

A configuration as a TOML table. In reading every part may be absent; in
writing only an absent default sender is left out. TOML has no numbers from
2^63 on, so a configuration with one of them cannot be written.
-/

namespace CouncilLedger

/-- A word as a TOML value, if it is below 2^63. -/
def Toml.ofWord? (n : UInt64) : Option Toml :=
  if n < 0x8000000000000000 then some (.int n.toNat) else none

namespace Allocation

/-- An allocation as a table. -/
def toToml? (a : Allocation) : Option Toml := do
  return .table [("address", .str a.address),
    ("amount", ← Toml.ofWord? a.amount)]

/-- The allocation of a table. -/
def ofToml? (v : Toml) : Option Allocation := do
  let ms ← v.section? ["address", "amount"]
  return {
    address := ← Toml.required ms "address" Toml.text?
    amount := ← Toml.required ms "amount" Toml.word? }

end Allocation

namespace ChainSettings

/-- Settings of the chain as a table. -/
def toToml? (s : ChainSettings) : Option Toml := do
  let sender := match s.defaultSender with
    | none => []
    | some name => [("default_sender", Toml.str name)]
  return .table ([("genesis_timestamp", ← Toml.ofWord? s.genesisTimestamp),
    ("checkpoint_interval", ← Toml.ofWord? s.checkpointInterval)] ++ sender)

/-- The settings of a table. -/
def ofToml? (v : Toml) : Option ChainSettings := do
  let ms ← v.section? ["genesis_timestamp", "checkpoint_interval",
    "default_sender"]
  let default : ChainSettings := {}
  return {
    genesisTimestamp :=
      ← Toml.withDefault ms "genesis_timestamp"
        default.genesisTimestamp Toml.word?
    checkpointInterval :=
      ← Toml.withDefault ms "checkpoint_interval"
        default.checkpointInterval Toml.word?
    defaultSender :=
      ← Toml.withDefault ms "default_sender" default.defaultSender
        (fun v => v.text?.map some) }

end ChainSettings

namespace Rules

/-- Rules as a table. -/
def toToml? (r : Rules) : Option Toml := do
  return .table [("min_proposal_balance", ← Toml.ofWord? r.minProposalBalance),
    ("max_duration_secs", ← Toml.ofWord? r.maxDuration),
    ("quorum_percent", .int r.quorumPercent.toNat)]

/-- The rules of a table. -/
def ofToml? (v : Toml) : Option Rules := do
  let ms ← v.section? ["min_proposal_balance", "max_duration_secs",
    "quorum_percent"]
  let default : Rules := {}
  return {
    minProposalBalance :=
      ← Toml.withDefault ms "min_proposal_balance"
        default.minProposalBalance Toml.word?
    maxDuration := ← Toml.withDefault ms "max_duration_secs"
      default.maxDuration Toml.word?
    quorumPercent := ← Toml.withDefault ms "quorum_percent"
      default.quorumPercent Toml.byte? }

end Rules

namespace Config

/-- The initial balance in the section on the treasury, zero unless given
there. -/
def treasuryOfToml? (v : Toml) : Option Amount := do
  Toml.withDefault (← v.section? ["initial_balance"])
    "initial_balance" 0 Toml.word?

/-- A configuration as the members of the whole table. -/
def toToml? (c : Config) : Option (List (String × Toml)) := do
  return [("chain", ← c.chain.toToml?), ("governance", ← c.rules.toToml?),
    ("treasury", .table [("initial_balance", ← Toml.ofWord? c.treasury)]),
    ("allocations", .arr (← c.allocations.mapM Allocation.toToml?))]

/-- The configuration of the members of the whole table. -/
def ofToml? (ms : List (String × Toml)) : Option Config := do
  let default : Config := {}
  return {
    chain := ← Toml.withDefault ms "chain" default.chain ChainSettings.ofToml?
    rules := ← Toml.withDefault ms "governance" default.rules Rules.ofToml?
    treasury := ← Toml.withDefault ms "treasury" default.treasury treasuryOfToml?
    allocations :=
      ← Toml.withDefault ms "allocations" default.allocations
        (Toml.list? Allocation.ofToml?) }

end Config
end CouncilLedger
