import CouncilLedger.Transaction

/-!
# Blocks

An ordered batch of transactions, linked to its parent by the parent's hash. A
block is named by the hash of its header, which commits to the hashes of its
transactions in their order.
-/

namespace CouncilLedger

/-- A block. -/
structure Block where
  height : UInt64
  hash : Digest
  /-- The block before; absent at height 0 only. -/
  parent : Option Digest
  timestamp : UInt64
  transactions : List Transaction
deriving DecidableEq

namespace Block

/-! ## Hashes -/

/-- The bytes that commit to a list of transactions. -/
def rootBytes (ts : List Transaction) : List UInt8 :=
  Encoding.plain "daochain-tx-root" ++ Encoding.word (UInt64.ofNat ts.length) ++
    ts.flatMap (·.hash.bytes)

/-- The commitment to the transactions of a block. -/
def root (b : Block) : Digest := .ofBytes (rootBytes b.transactions)

/-- The bytes of an optional parent. -/
def parentBytes : Option Digest → List UInt8
  | none => [0]
  | some d => 1 :: d.bytes

/-- The bytes of a header. -/
def headerBytes (height : UInt64) (parent : Option Digest) (timestamp : UInt64)
    (root : Digest) : List UInt8 :=
  Encoding.plain "daochain-block" ++ Encoding.word height ++
    parentBytes parent ++ Encoding.word timestamp ++ root.bytes

/-- The hash that should name the block. -/
def computedHash (b : Block) : Digest :=
  .ofBytes (headerBytes b.height b.parent b.timestamp b.root)

/-! ## Making blocks -/

/-- The block of the given contents, named by its hash, with the name put onto
its transactions. -/
def build (height : UInt64) (parent : Option Digest) (timestamp : UInt64)
    (transactions : List Transaction) : Block :=
  let hash := Digest.ofBytes
    (headerBytes height parent timestamp (.ofBytes (rootBytes transactions)))
  { height, hash, parent, timestamp
    transactions := transactions.map fun t => { t with blockHash := hash } }

/-! ## Checking blocks -/

/-- Check that a transaction has the right name and belongs to the block
`hash`. -/
def checkTransaction (hash : Digest) (t : Transaction) :
    Except Rejection Unit :=
  if t.hash ≠ t.computedHash then
    .error (.invalidBlock (.transactionHashMismatch t.hash))
  else if t.blockHash ≠ hash then
    .error (.invalidBlock (.foreignTransaction t.hash t.blockHash hash))
  else .ok ()

/-- Check that only the first block has no parent. -/
def checkParent (height : UInt64) (parent : Option Digest) :
    Except Rejection Unit :=
  match parent with
  | some _ =>
    if height = 0 then .error (.invalidBlock .genesisWithParent) else .ok ()
  | none =>
    if height = 0 then .ok () else .error (.invalidBlock (.noParent height))

/-- Check all that can be checked of a block without its chain. -/
def check (b : Block) : Except Rejection Unit := do
  checkParent b.height b.parent
  if b.hash ≠ b.computedHash then
    throw (.invalidBlock (.hashMismatch b.hash b.computedHash))
  b.transactions.forM (checkTransaction b.hash)

end Block
end CouncilLedger
