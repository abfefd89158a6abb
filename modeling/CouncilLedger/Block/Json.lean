import CouncilLedger.Block
import CouncilLedger.Proposal.Json

/-!
# JSON of blocks

A block as a record with its transactions. Its compact text is one line of the
block log. A transaction is one object: its own parts, the kind of its action,
and the parts of the action. An action alone is an object with its kind, or an
array of the kind and the parts in order.
-/

namespace CouncilLedger

/-! ## Actions -/

namespace Action

/-- The name of a case within an action, which may also be written as an object
that holds nothing but the name with an empty object. -/
def caseName? : Json → Option String
  | .obj [(s, .obj [])] => some s
  | v => v.caseName?

/-- The parts of the actions of a kind, in order. -/
def partNames : ActionKind → List String
  | .mint => ["to", "amount"]
  | .transfer => ["to", "amount"]
  | .propose => Draft.partNames
  | .vote => ["proposal_id", "choice"]
  | .payOut => ["proposal_id", "to", "amount"]
  | .delegate => ["delegate", "duration"]
  | .revoke => []

/-- The parts of an action. -/
def toMembers : Action → List (String × Json)
  | mint recipient amount => [("to", .str recipient), ("amount", .word amount)]
  | transfer recipient amount =>
    [("to", .str recipient), ("amount", .word amount)]
  | propose draft => draft.toMembers
  | vote proposal choice =>
    [("proposal_id", .str proposal), ("choice", .str choice.name)]
  | payOut proposal recipient amount =>
    [("proposal_id", .str proposal), ("to", .str recipient),
      ("amount", .word amount)]
  | delegate holder duration =>
    [("delegate", .str holder), ("duration", .word duration)]
  | revoke => []

/-- The action of a kind with the parts of a record. -/
def ofRecord? (kind : ActionKind) (r : Json.Record) : Option Action :=
  match kind with
  | .mint => do
    return mint (← r.required "to" Json.text?)
      (← r.required "amount" Json.word?)
  | .transfer => do
    return transfer (← r.required "to" Json.text?)
      (← r.required "amount" Json.word?)
  | .propose => (Draft.ofRecord? caseName? r).map propose
  | .vote => do
    return vote (← r.required "proposal_id" Json.text?)
      (← r.required "choice" (fun v => caseName? v >>= Choice.ofName?))
  | .payOut => do
    return payOut (← r.required "proposal_id" Json.text?)
      (← r.required "to" Json.text?) (← r.required "amount" Json.word?)
  | .delegate => do
    return delegate (← r.required "delegate" Json.text?)
      (← r.required "duration" Json.word?)
  | .revoke => some revoke

/-- The action of a kind with the parts that an object or an array gives. -/
def ofParts? (kind : ActionKind) (parts : Json) : Option Action :=
  parts.record? (partNames kind) >>= ofRecord? kind

/-- The action of an object with its kind, or of an array that starts with
it. -/
def ofJson? (v : Json) : Option Action :=
  match v with
  | .arr (kind :: parts) => do
    ofParts? (← kind.text? >>= ActionKind.ofName?) (.arr parts)
  | v => do
    let r ← v.members? ["kind"]
    ofParts? (← r.required "kind" Json.text? >>= ActionKind.ofName?) v

end Action

/-! ## Transactions -/

namespace Transaction

/-- The parts of a transaction beside its action. -/
def partNames : List String :=
  ["hash", "block_hash", "from", "nonce", "timestamp"]

/-- A transaction as an object. -/
def toJson (t : Transaction) : Json :=
  .obj ([("hash", .digest t.hash), ("block_hash", .digest t.blockHash),
    ("from", .str t.sender), ("nonce", .word t.nonce),
    ("timestamp", .word t.timestamp), ("kind", .str t.kind.name)] ++
      t.action.toMembers)

/-- The kind of an action within a transaction, by its name or its number. -/
def kindOfJson? : Json → Option ActionKind
  | .int (.ofNat n) => ActionKind.all[n]?
  | v => v.text? >>= ActionKind.ofName?

/-- The action of the members of a transaction that are no parts of its own.
They are kept whole until the kind is known. -/
def actionOfMembers? (members : List (String × Json)) : Option Action := do
  if !members.all (·.2.denotes) then none
  let r ← (Json.obj members).members? ["kind"]
  Action.ofParts? (← r.required "kind" kindOfJson?) (.obj members)

/-- The transaction of an object. -/
def ofJson? : Json → Option Transaction
  | .obj members => do
    let r ← (Json.obj members).members? partNames
    return {
      hash := ← r.required "hash" Json.digest?
      blockHash := ← r.required "block_hash" Json.digest?
      sender := ← r.required "from" Json.text?
      nonce := ← r.required "nonce" Json.word?
      timestamp := ← r.required "timestamp" Json.word?
      action := ← actionOfMembers?
        (members.filter fun m => !partNames.contains m.1) }
  | _ => none

end Transaction

/-! ## Blocks -/

namespace Block

/-- A block as a record. -/
def toJson (b : Block) : Json :=
  .obj [("height", .word b.height), ("hash", .digest b.hash),
    ("parent_hash", .orNull Json.digest b.parent),
    ("timestamp", .word b.timestamp),
    ("transactions", .arr (b.transactions.map (·.toJson)))]

/-- The block of a record. -/
def ofJson? (v : Json) : Option Block := do
  let r ← v.record? ["height", "hash", "parent_hash", "timestamp",
    "transactions"]
  return {
    height := ← r.required "height" Json.word?
    hash := ← r.required "hash" Json.digest?
    parent := ← r.optional "parent_hash" Json.digest?
    timestamp := ← r.required "timestamp" Json.word?
    transactions := ← r.required "transactions"
      (Json.list? Transaction.ofJson?) }

end Block
end CouncilLedger
