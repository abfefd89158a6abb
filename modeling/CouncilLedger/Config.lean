import CouncilLedger.Block

/-!
# Configuration

The settings of a node and of the first block of its chain. A configuration
that passes its check leads to a first block that commits.
-/

namespace CouncilLedger

/-- Tokens that an account starts with. -/
structure Allocation where
  address : String
  amount : Amount
deriving DecidableEq, Repr

/-- Settings of the chain. -/
structure ChainSettings where
  /-- The timestamp of the first block. -/
  genesisTimestamp : UInt64 := 0
  /-- A checkpoint is written at every height that this divides, unless it is
  zero. -/
  checkpointInterval : UInt64 := 10
  /-- Who sends the requests that name no sender. -/
  defaultSender : Option String := some "faucet"
deriving DecidableEq, Repr, Inhabited

/-- The settings of a node. -/
structure Config where
  chain : ChainSettings := {}
  rules : Rules := {}
  /-- What the treasury starts with. -/
  treasury : Amount := 1000000
  allocations : List Allocation := [⟨"faucet", 1000000000⟩]
deriving DecidableEq, Repr, Inhabited

/-- What is wrong with a configuration. -/
inductive ConfigFault where
  | quorum (percent : UInt8)
  | zeroDuration
  | defaultSender (fault : FormatFault)
  | allocationAddress (address : String) (fault : FormatFault)
  | reservedAllocation (address : String)
  | zeroAllocation (address : String)
  | supplyOverflow
deriving DecidableEq

/-- The wording of a fault. -/
def ConfigFault.message : ConfigFault → String
  | quorum n =>
    "governance.quorum_percent " ++ toString n.toNat ++ " is not a percentage"
  | zeroDuration => "governance.max_duration_secs must be positive"
  | defaultSender fault =>
    "chain.default_sender: invalid format: " ++ fault.message
  | allocationAddress a fault =>
    "allocation address " ++ Text.quoted a ++
      ": invalid format: " ++ fault.message
  | reservedAllocation a => "allocation to reserved address " ++ Text.quoted a
  | zeroAllocation a => "allocation to " ++ a ++ " must be positive"
  | supplyOverflow => "genesis supply overflows u64"

namespace Config

/-! ## Checking -/

/-- Check an allocation, and add it to the supply so far. -/
def addAllocation (supply : Amount) (a : Allocation) :
    Except ConfigFault Amount :=
  match Address.check a.address with
  | .error fault => .error (.allocationAddress a.address fault)
  | .ok () =>
    if Address.isReserved a.address then .error (.reservedAllocation a.address)
    else if a.amount = 0 then .error (.zeroAllocation a.address)
    else match Amount.add? supply a.amount with
      | none => .error .supplyOverflow
      | some total => .ok total

/-- Check the sender of requests that name none. -/
def checkSender : Option String → Except ConfigFault Unit
  | none => .ok ()
  | some sender => (Address.check sender).mapError .defaultSender

/-- Accept a configuration whose first block will commit. -/
def check (c : Config) : Except ConfigFault Unit := do
  if 100 < c.rules.quorumPercent then throw (.quorum c.rules.quorumPercent)
  if c.rules.maxDuration = 0 then throw .zeroDuration
  checkSender c.chain.defaultSender
  let _ ← c.allocations.foldlM addAllocation c.treasury

/-! ## The first block -/

/-- What the first block creates: every allocation, then the treasury. -/
def mints (c : Config) : List Allocation :=
  c.allocations ++
    (if c.treasury = 0 then [] else [⟨Address.treasury, c.treasury⟩])

/-- The mint of a number in the first block. -/
def mintTransaction (timestamp : UInt64) (a : Allocation) (number : Nat) :
    Transaction :=
  .ofAction Address.genesis (UInt64.ofNat number) timestamp
    (.mint a.address a.amount)

/-- The first block. -/
def genesisBlock (c : Config) : Block :=
  let timestamp := c.chain.genesisTimestamp
  .build 0 none timestamp
    ((c.mints.zipIdx).map fun m => mintTransaction timestamp m.1 m.2)

end Config
end CouncilLedger
