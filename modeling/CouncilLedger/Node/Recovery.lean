import CouncilLedger.Node

/-!
# Starting a node

A node starts from its block log. Where there is a checkpoint that belongs to
the log, the transactions up to it are spared; the others are applied again. A
block of the log that does not commit any more ends the chain, and the log is
cut before it.
-/

namespace CouncilLedger

/-- Why a node does not start. -/
inductive StartFault where
  /-- The first block of a new chain is refused. -/
  | rejected (reason : Rejection)
  | storage (fault : StorageFault)
  /-- The log has blocks, and the first of them does not commit. -/
  | noGenesis
deriving DecidableEq

/-- The wording of a fault. -/
def StartFault.message : StartFault → String
  | rejected reason => reason.message
  | storage fault => fault.message
  | noGenesis => "block log holds no valid genesis block"

/-! ## Checkpoints of a log -/

namespace Archive

/-- Add blocks that follow each other, each checked by itself, from a position
and a parent on. -/
def addAll? (a : Archive) (position : UInt64) (parent : Option Digest) :
    List Block → Option Archive
  | [] => some a
  | b :: rest => do
    b.check.toOption
    if b.height ≠ position ∨ b.parent ≠ parent then none
    else (← (a.add b).toOption).addAll? (position + 1) (some b.hash) rest

end Archive

/-- The chain that a checkpoint and the blocks up to it stand for, if the
checkpoint belongs to the log. The rules are those of the configuration. -/
def Checkpoint.restore? (c : Checkpoint) (rules : Rules) (blocks : List Block) :
    Option Chain := do
  let tip ← blocks[c.height.toNat]?
  if tip.hash ≠ c.tip then none
  let archive ← Archive.empty.addAll? 0 none (blocks.take (c.height.toNat + 1))
  return { archive, accounts := c.accounts, council := { c.council with rules }
           tip := some ⟨tip.height, tip.hash, tip.timestamp⟩ }

/-! ## Replay -/

namespace Chain

/-- The chain after the longest run of blocks that commit, and their number. -/
def replay (c : Chain) : List Block → Chain × Nat
  | [] => (c, 0)
  | b :: rest =>
    match c.commit b with
    | .error _ => (c, 0)
    | .ok next =>
      let (last, count) := next.replay rest
      (last, count + 1)

/-- The chain that a log leads to, by way of a checkpoint where one belongs to
it, and the number of blocks that it takes. -/
def ofLog (rules : Rules) (checkpoint : Option Checkpoint)
    (blocks : List Block) : Chain × Nat :=
  match checkpoint.bind fun c => (c.restore? rules blocks).map fun chain =>
    (chain, c.height) with
  | some (chain, height) =>
    let start := height.toNat + 1
    let (last, count) := chain.replay (blocks.drop start)
    (last, start + count)
  | none => (empty rules).replay blocks

end Chain

/-! ## Starting -/

namespace Node

/-- The node after an operation that succeeded. -/
def afterSuccess : Outcome Unit → Except Rejection Node
  | (.error reason, _) => .error reason
  | (.ok (), n) => .ok n

/-- A new node in memory. -/
def inMemory (config : Config) (m : Moment) : Except Rejection Node :=
  afterSuccess ((empty config none).commit m config.genesisBlock)

/-- The outcome of a first commit on an empty log, and the directory as it then
is. -/
def founded (d : DataDir) (first : Outcome Unit) :
    Except StartFault Node × DataDir :=
  ((afterSuccess first).mapError .rejected, first.2.dir.getD d)

/-- A new node on an empty log. -/
def found (config : Config) (d : DataDir) (m : Moment) :
    Except StartFault Node × DataDir :=
  founded d ((empty config (some d)).commit m config.genesisBlock)

/-- The node of a chain that uses the first `count` blocks of the log. What the
log holds beyond them is cut off. -/
def resume (config : Config) (d : DataDir) (blocks : List Block) (chain : Chain)
    (count : Nat) : Except StartFault Node × DataDir :=
  let (outcome, d) := if count < blocks.length then BlockLog.overwrite d
    (blocks.take count)
    else (.ok (), d)
  match outcome with
  | .error fault => (.error (.storage fault), d)
  | .ok () =>
    if chain.archive.blocks.size = 0 then (.error .noGenesis, d)
    else (.ok ⟨chain, some d, config.chain.checkpointInterval⟩, d)

/-- Start a node on a directory, and answer with the directory as it then is. -/
def start (config : Config) (d : DataDir) (m : Moment) :
    Except StartFault Node × DataDir :=
  match BlockLog.read d with
  | (.error fault, d) => (.error (.storage fault), d)
  | (.ok [], d) => found config d m
  | (.ok blocks, d) =>
    let (chain, count) := Chain.ofLog config.rules (Checkpoint.load? d) blocks
    resume config d blocks chain count

end Node
end CouncilLedger
