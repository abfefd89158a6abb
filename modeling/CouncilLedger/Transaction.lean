import CouncilLedger.Encoding
import CouncilLedger.Proposal.Draft

/-!
# Transactions

An action of a sender, with the nonce that numbers it. A transaction is named
by the hash of all its parts but the block that holds it.
-/

namespace CouncilLedger

/-- What a transaction does. -/
inductive Action where
  /-- Create tokens. -/
  | mint (recipient : String) (amount : Amount)
  | transfer (recipient : String) (amount : Amount)
  /-- Open a proposal, whose id is the hash of the transaction. -/
  | propose (draft : Draft)
  | vote (proposal : String) (choice : Choice)
  /-- Pay out a passed treasury proposal. -/
  | payOut (proposal recipient : String) (amount : Amount)
  /-- Lend the sender's voting power to `holder` for `duration` seconds. -/
  | delegate (holder : String) (duration : UInt64)
  /-- End the sender's delegation. -/
  | revoke
deriving DecidableEq, Repr

namespace Action

/-- The kind of an action. -/
def kind : Action → ActionKind
  | mint .. => .mint
  | transfer .. => .transfer
  | propose _ => .propose
  | vote .. => .vote
  | payOut .. => .payOut
  | delegate .. => .delegate
  | revoke => .revoke

/-- The bytes of a requested payout. -/
def fundingBytes : Option Funding → List UInt8
  | none => [0]
  | some f => 1 :: (Encoding.text f.recipient ++ Encoding.word f.amount)

/-- The bytes of a draft. -/
def draftBytes (d : Draft) : List UInt8 :=
  Encoding.text d.title ++ Encoding.text d.description ++
    Encoding.text d.kind.name ++ Encoding.text d.mode.name ++
    Encoding.word d.duration ++ Encoding.word d.threshold ++
    fundingBytes d.funding

/-- The bytes of the parts of an action, without its name. -/
def partBytes : Action → List UInt8
  | mint recipient amount => Encoding.text recipient ++ Encoding.word amount
  | transfer recipient amount => Encoding.text recipient ++ Encoding.word amount
  | propose draft => draftBytes draft
  | vote proposal choice => Encoding.text proposal ++ Encoding.text choice.name
  | payOut proposal recipient amount =>
    Encoding.text proposal ++ Encoding.text recipient ++ Encoding.word amount
  | delegate holder duration => Encoding.text holder ++ Encoding.word duration
  | revoke => []

/-- The bytes of an action. -/
def bytes (a : Action) : List UInt8 := Encoding.plain a.kind.name ++ a.partBytes

end Action

/-- A transaction of a block. -/
structure Transaction where
  hash : Digest
  /-- The block that holds the transaction; zero until there is one. -/
  blockHash : Digest
  sender : String
  /-- The place of the transaction among those of its sender. -/
  nonce : UInt64
  timestamp : UInt64
  action : Action
deriving DecidableEq

namespace Transaction

/-- The bytes whose hash names a transaction. -/
def bytesOf (sender : String) (nonce timestamp : UInt64) (action : Action) :
    List UInt8 :=
  Encoding.plain "daochain-tx" ++ Encoding.text sender ++ Encoding.word nonce ++
    Encoding.word timestamp ++ action.bytes

/-- The bytes whose hash should name the transaction. -/
def bytes (t : Transaction) : List UInt8 :=
  bytesOf t.sender t.nonce t.timestamp t.action

/-- The hash that should name the transaction. -/
def computedHash (t : Transaction) : Digest := .ofBytes t.bytes

/-- The transaction of an action that is in no block yet. -/
def ofAction (sender : String) (nonce timestamp : UInt64) (action : Action) :
    Transaction :=
  { hash := .ofBytes (bytesOf sender nonce timestamp action)
    blockHash := .zero, sender, nonce, timestamp, action }

/-- The kind of the transaction's action. -/
def kind (t : Transaction) : ActionKind := t.action.kind

end Transaction
end CouncilLedger
