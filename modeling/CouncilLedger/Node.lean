import CouncilLedger.BlockLog
import CouncilLedger.Chain
import CouncilLedger.Checkpoint
import CouncilLedger.Config

/-!
# Nodes

A chain together with where it is kept. A block is checked first, then logged,
then committed, so a block that is refused, or that the log does not take,
leaves the chain as it was. Time and disk come from outside.
-/

namespace CouncilLedger

/-- What an operation meets outside of the node. -/
structure Moment where
  /-- The time in seconds. -/
  clock : UInt64
  /-- Whether the disk takes the line of a block in whole. -/
  diskTakes : Bool := true
deriving DecidableEq, Repr

/-- A chain and where it is kept. -/
structure Node where
  chain : Chain
  /-- Where the chain is kept; a chain in memory has no directory. -/
  dir : Option DataDir
  /-- A checkpoint is written at every height that this divides, unless it is
  zero. -/
  checkpointInterval : UInt64
deriving DecidableEq

namespace Node

/-- The outcome of an operation, and the node after it. -/
abbrev Outcome (α : Type) := Except Rejection α × Node

/-- A node without blocks. -/
def empty (config : Config) (dir : Option DataDir) : Node :=
  ⟨.empty config.rules, dir, config.chain.checkpointInterval⟩

/-! ## Writing to disk -/

/-- Log a block, where there is a log. -/
def log (n : Node) (m : Moment) (b : Block) : Except StorageFault Unit × Node :=
  match n.dir with
  | none => (.ok (), n)
  | some d =>
    let (outcome, d) := BlockLog.append d m.diskTakes b
    (outcome, { n with dir := some d })

/-- The checkpoint of the present state. -/
def checkpoint? (n : Node) : Option Checkpoint :=
  n.chain.tip.map fun tip =>
    ⟨tip.height, tip.hash, n.chain.accounts, n.chain.council⟩

/-- Write a checkpoint of the present state, where there is a directory. -/
def saveCheckpoint (n : Node) : Except StorageFault Unit × Node :=
  match n.dir, n.checkpoint? with
  | some d, some c =>
    let (outcome, d) := c.save d
    (outcome, { n with dir := some d })
  | _, _ => (.ok (), n)

/-- Whether a checkpoint is due at a height. -/
def checkpointIsDue (n : Node) (height : UInt64) : Bool :=
  n.checkpointInterval != 0 && height % n.checkpointInterval == 0

/-! ## Committing -/

/-- Commit a block to the chain and to the log. A checkpoint that cannot be
written is passed over. -/
def commit (n : Node) (m : Moment) (b : Block) : Outcome Unit :=
  match n.chain.validate b with
  | .error r => (.error r, n)
  | .ok after =>
    match n.log m b with
    | (.error fault, logged) => (.error (.storage fault), logged)
    | (.ok (), logged) =>
      match logged.chain.extend b after with
      | .error r => (.error r, logged)
      | .ok chain =>
        let next := { logged with chain }
        (.ok (),
          if next.checkpointIsDue b.height then next.saveCheckpoint.2 else next)

/-- Commit an action of a sender in a block of its own. -/
def submit (n : Node) (m : Moment) (sender : String) (action : Action) :
    Outcome Receipt :=
  match n.chain.blockFor m.clock sender action with
  | .error r => (.error r, n)
  | .ok (t, b) =>
    let (outcome, next) := n.commit m b
    (outcome.map fun _ => Chain.receipt t b, next)

/-- Close the proposals that are due by an empty block, and count them. Where
none is due, no block is made. -/
def tick (n : Node) (m : Moment) : Outcome Nat :=
  match n.chain.closingBlock m.clock with
  | .error r => (.error r, n)
  | .ok none => (.ok 0, n)
  | .ok (some (due, b)) =>
    let (outcome, next) := n.commit m b
    (outcome.map fun _ => due, next)

end Node
end CouncilLedger
