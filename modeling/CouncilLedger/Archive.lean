import CouncilLedger.Block
import CouncilLedger.BlockKey
import CouncilLedger.SortedMap

/-!
# Archive

The accepted blocks by hash and by height, and their transactions by hash.
Hashes of blocks and of transactions share one space of keys.
-/

namespace CouncilLedger

/-- Blocks by hash and by height, and transactions by hash. -/
structure Archive where
  blocks : SortedMap Digest Block
  heights : SortedMap UInt64 Digest
  transactions : SortedMap Digest Transaction
deriving DecidableEq

namespace Archive

/-- An archive of nothing. -/
def empty : Archive := ⟨.empty, .empty, .empty⟩

instance : Inhabited Archive := ⟨empty⟩

/-! ## Look-up -/

/-- Whether a hash names a block or a transaction. -/
def contains (a : Archive) (hash : Digest) : Bool :=
  a.blocks.contains hash || a.transactions.contains hash

/-- The block of a key. -/
def block? (a : Archive) : BlockKey → Option Block
  | .byHash hash => a.blocks.get? hash
  | .byHeight height => (a.heights.get? height).bind a.blocks.get?

/-- What is missing when no block has a key. -/
def missingBlock : BlockKey → Missing
  | .byHash hash => .block hash
  | .byHeight height => .blockAt height

/-- The block of a key, which has to exist. -/
def block (a : Archive) (key : BlockKey) : Except Rejection Block :=
  match a.block? key with
  | some b => .ok b
  | none => .error (.notFound (missingBlock key))

/-- The transaction of a hash, which has to exist. -/
def transaction (a : Archive) (hash : Digest) : Except Rejection Transaction :=
  match a.transactions.get? hash with
  | some t => .ok t
  | none => .error (.notFound (.transaction hash))

/-! ## Adding -/

/-- Add a transaction under a new hash. -/
def addTransaction (a : Archive) (t : Transaction) : Except Rejection Archive :=
  if a.contains t.hash then .error (.duplicateKey t.hash)
  else .ok { a with transactions := a.transactions.insert t.hash t }

/-- Add a block under a new hash and a new height, without its transactions. -/
def addBlock (a : Archive) (b : Block) : Except Rejection Archive :=
  if a.contains b.hash then .error (.duplicateKey b.hash)
  else match a.heights.get? b.height with
    | some holder => .error (.invalidBlock (.heightTaken b.height holder))
    | none =>
      let heights := a.heights.insert b.height b.hash
      let blocks := a.blocks.insert b.hash b
      if heights.size ≠ blocks.size then
        .error (.invalidBlock (.outOfStep heights.size blocks.size))
      else .ok { a with heights, blocks }

/-- Check that the hashes of some transactions are new: not the block's, not in
the archive, and not among those `seen` before. -/
def checkTransactions (a : Archive) (block : Digest) (seen : List Digest) :
    List Transaction → Except Rejection Unit
  | [] => .ok ()
  | t :: rest =>
    if t.hash = block ∨ a.contains t.hash ∨ t.hash ∈ seen then
      .error (.duplicateTransaction t.hash)
    else a.checkTransactions block (t.hash :: seen) rest

/-- Check that a block and its transactions could all be added. -/
def check (a : Archive) (b : Block) : Except Rejection Unit :=
  if a.contains b.hash then .error (.duplicateKey b.hash)
  else match a.heights.get? b.height with
    | some holder => .error (.invalidBlock (.heightTaken b.height holder))
    | none => a.checkTransactions b.hash [] b.transactions

/-- Add a block and its transactions, or nothing. -/
def add (a : Archive) (b : Block) : Except Rejection Archive := do
  a.check b
  (← b.transactions.foldlM addTransaction a).addBlock b

end Archive
end CouncilLedger
