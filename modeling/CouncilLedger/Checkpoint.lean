import CouncilLedger.Accounts.Json
import CouncilLedger.Council.Json
import CouncilLedger.DataDir
import CouncilLedger.Encoding
import CouncilLedger.Json.Printer
import CouncilLedger.Json.Reader

/-!
# Checkpoints

The state that the blocks up to some height lead to. A checkpoint spares a node
the transactions of these blocks when it starts; one that cannot be read is as
good as none.
-/

namespace CouncilLedger

/-- The state after the block at `height`, whose hash is `tip`. -/
structure Checkpoint where
  height : UInt64
  tip : Digest
  accounts : Accounts
  council : Council
deriving DecidableEq

namespace Checkpoint

/-- A checkpoint as a record. -/
def toJson (c : Checkpoint) : Json :=
  .obj [("height", .word c.height), ("tip", .digest c.tip),
    ("ledger", c.accounts.toJson), ("governance", c.council.toJson)]

/-- The checkpoint of a record. -/
def ofJson? (v : Json) : Option Checkpoint := do
  let r ← v.record? ["height", "tip", "ledger", "governance"]
  return {
    height := ← r.required "height" Json.word?
    tip := ← r.required "tip" Json.digest?
    accounts := ← r.required "ledger" Accounts.ofJson?
    council := ← r.required "governance" Council.ofJson? }

/-! ## On disk -/

/-- The name of the file. -/
def name : String := "checkpoint.json"

/-- The name under which a new checkpoint is written before it takes the place
of the old one. -/
def temporary : String := "checkpoint.tmp"

/-- Write a checkpoint in place of the old one. -/
def save (c : Checkpoint) (d : DataDir) : DataDir.Outcome Unit :=
  d.replace name temporary (Text.encode (c.toJson.renderAt 0))

/-- The checkpoint in a directory, if there is a readable one. -/
def load? (d : DataDir) : Option Checkpoint := do
  let text ← Text.decode? (← d.file? name)
  ofJson? (← Json.readAll text)

end Checkpoint
end CouncilLedger
