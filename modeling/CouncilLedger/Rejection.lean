import CouncilLedger.Ballot
import CouncilLedger.Digest

/-!
# Rejections

Why an operation is refused. A refused operation leaves the state as it was.
The classes say which rule was broken and their causes in what way; each has
its wording in one place.
-/

namespace CouncilLedger

/-! ## Causes -/

/-- What was asked for and is not there. -/
inductive Missing where
  | block (hash : Digest)
  | blockAt (height : UInt64)
  | transaction (hash : Digest)
  | proposal (id : String)
  | delegation (delegator : String)
deriving DecidableEq

/-- What is wrong with an amount. -/
inductive AmountFault where
  | mintOfZero
  | supplyOverflow
  | balanceOverflow (address : String)
  | zero
  /-- The field of a request that has to be positive is not. -/
  | notPositive (field : String) (given : Int)
deriving DecidableEq

/-- What is wrong with a proposal, or with what is asked of one. -/
inductive ProposalFault where
  | titleLength
  | descriptionLength
  | zeroDuration
  | durationNotPositive (given : Int)
  | durationTooLong (given longest : UInt64)
  | threshold (given : Int)
  | fundingMissing
  | fundingRecipient (fault : FormatFault)
  | fundingOfZero
  | fundingNotAllowed (kind : ProposalKind)
  | alreadyExists (id : String)
  /-- The proposal is not recorded as passed. -/
  | notPassed (id : String)
  /-- The proposal does not stand as passed at the time of the payout. -/
  | notPassedBy (id : String) (status : Status)
  | notTreasury (id : String) (kind : ProposalKind)
  | alreadyFunded (id : String) (payout : Digest)
  | otherFunding (id : String) (amount : UInt64) (recipient : String)
      (askedAmount : UInt64) (askedRecipient : String)
  | noFunding (id : String)
deriving DecidableEq

/-- What is wrong with a delegation. -/
inductive DelegationFault where
  | toSelf
  | toReserved (delegate : String)
  | toUnknown (delegate : String)
  | durationRange
  | durationNotPositive (given : Int)
  | alreadyDelegates (delegator delegate : String)
  /-- The delegator itself holds power lent by others. -/
  | holdsLentPower (delegator : String)
  /-- The delegate has itself lent its power on. -/
  | delegateLends (delegate onward : String)
  | noneActive (delegator : String)
deriving DecidableEq

/-- What is wrong with a block. -/
inductive BlockFault where
  | heightTaken (height : UInt64) (holder : Digest)
  | outOfStep (heights blocks : Nat)
  | genesisWithParent
  | noParent (height : UInt64)
  | hashMismatch (hash computed : Digest)
  | transactionHashMismatch (hash : Digest)
  | foreignTransaction (hash claimed block : Digest)
  | timestampPrecedes (timestamp parent : UInt64)
  | chainIsEmpty
  | lateMint (hash : Digest)
  | genesisAction (kind : ActionKind)
deriving DecidableEq

/-- What an account is not entitled to. -/
inductive AuthorityFault where
  | treasuryFunds
  | lentPower (voter delegate : String)
  | cannotMint (sender : String)
  | reservedSender (sender : String) (kind : ActionKind)
deriving DecidableEq

/-- What went wrong with a file. -/
inductive StorageFault where
  /-- A directory stands where a file should be written. -/
  | isDirectory
  /-- The block log did not take a line. -/
  | appendFailed
  | readFailed (path : String)
  | replaceFailed (path : String)
deriving DecidableEq

/-! ## Rejections -/

/-- Why an operation is refused. -/
inductive Rejection where
  /-- A malformed identifier. -/
  | invalidFormat (fault : FormatFault)
  /-- A well-formed identifier of something that is absent. -/
  | notFound (what : Missing)
  | duplicateKey (hash : Digest)
  | duplicateTransaction (hash : Digest)
  | duplicateVote (proposal voter : String)
  /-- The block does not extend the tip. -/
  | fork (expectedHeight : UInt64) (expectedParent : Option Digest)
      (height : UInt64) (parent : Option Digest)
  | insufficientBalance (address : String) (available required : UInt64)
  | invalidAmount (fault : AmountFault)
  | invalidProposal (fault : ProposalFault)
  | invalidDelegation (fault : DelegationFault)
  | proposalClosed (id : String)
  | invalidNonce (address : String) (expected got : UInt64)
  | unauthorized (fault : AuthorityFault)
  | invalidBlock (fault : BlockFault)
  | storage (fault : StorageFault)
deriving DecidableEq

/-! ## Wording -/

/-- What is missing, in words. -/
def Missing.message : Missing → String
  | block h => "block " ++ h.hex
  | blockAt n => "block at height " ++ toString n.toNat
  | transaction h => "transaction " ++ h.hex
  | proposal id => "proposal " ++ id
  | delegation a => "delegation from " ++ a

/-- The wording of a fault. -/
def AmountFault.message : AmountFault → String
  | mintOfZero => "mint amount must be positive"
  | supplyOverflow => "total supply overflow"
  | balanceOverflow a => "balance overflow for " ++ a
  | zero => "amount must be positive"
  | notPositive field n => field ++ " must be positive, got " ++ toString n

/-- The wording of a fault. -/
def ProposalFault.message : ProposalFault → String
  | titleLength => "title must be 1-200 characters"
  | descriptionLength => "description must be 1-10000 characters"
  | zeroDuration => "duration must be positive"
  | durationNotPositive n => "duration must be positive, got " ++ toString n
  | durationTooLong d longest =>
    "duration " ++ toString d.toNat ++ "s exceeds maximum " ++
      toString longest.toNat ++ "s"
  | threshold n => "threshold " ++ toString n ++ " is not a percentage"
  | fundingMissing => "treasury proposals must request funding"
  | fundingRecipient fault =>
    "funding recipient: invalid format: " ++ fault.message
  | fundingOfZero => "funding amount must be positive"
  | fundingNotAllowed kind => kind.name ++ " proposals cannot request funding"
  | alreadyExists id => "proposal " ++ id ++ " already exists"
  | notPassed id => "proposal " ++ id ++ " has not passed"
  | notPassedBy id status =>
    "proposal " ++ id ++ " has not passed (status " ++ status.title ++ ")"
  | notTreasury id kind =>
    "proposal " ++ id ++ " is a " ++ kind.name ++
      " proposal, not a treasury proposal"
  | alreadyFunded id payout =>
    "proposal " ++ id ++ " was already funded by " ++ payout.hex
  | otherFunding id amount recipient askedAmount askedRecipient =>
    "proposal " ++ id ++ " funds " ++ toString amount.toNat ++ " to " ++
      recipient ++ ", not " ++
      toString askedAmount.toNat ++ " to " ++ askedRecipient
  | noFunding id => "proposal " ++ id ++ " requests no funding"

/-- The wording of a fault. -/
def DelegationFault.message : DelegationFault → String
  | toSelf => "cannot delegate to self"
  | toReserved d => d ++ " cannot receive delegations"
  | toUnknown d => "delegate " ++ d ++ " has never held tokens"
  | durationRange => "duration must be 1-31536000 seconds"
  | durationNotPositive n => "duration must be positive, got " ++ toString n
  | alreadyDelegates a d => a ++ " already delegates to " ++ d
  | holdsLentPower a => a ++ " holds delegated power and cannot pass it on"
  | delegateLends d onward => d ++ " has itself delegated to " ++ onward
  | noneActive a => a ++ " has no active delegation"

/-- The wording of a fault. -/
def BlockFault.message : BlockFault → String
  | heightTaken n h =>
    "height " ++ toString n.toNat ++ " already indexed as " ++ h.hex
  | outOfStep heights blocks =>
    "index out of lockstep: " ++ toString heights ++ " heights, " ++
      toString blocks ++ " blocks"
  | genesisWithParent => "genesis block cannot have a parent"
  | noParent n => "block " ++ toString n.toNat ++ " has no parent hash"
  | hashMismatch h computed =>
    "block hash " ++ h.hex ++ " does not match contents (" ++ computed.hex ++ ")"
  | transactionHashMismatch h =>
    "transaction hash " ++ h.hex ++ " does not match contents"
  | foreignTransaction h claimed block =>
    "transaction " ++ h.hex ++ " claims block " ++ claimed.hex ++
      ", not " ++ block.hex
  | timestampPrecedes t parent =>
    "block timestamp " ++ toString t.toNat ++ " precedes parent timestamp " ++
      toString parent.toNat
  | chainIsEmpty => "chain has no genesis block"
  | lateMint h => "mint " ++ h.hex ++ " outside the genesis block"
  | genesisAction kind => "genesis block may only mint, found " ++ kind.name

/-- The wording of a fault. -/
def AuthorityFault.message : AuthorityFault → String
  | treasuryFunds =>
    "treasury funds move only through a passed treasury proposal"
  | lentPower voter delegate =>
    voter ++ " has delegated its voting power to " ++ delegate
  | cannotMint sender => sender ++ " cannot mint"
  | reservedSender sender kind =>
    "reserved account " ++ sender ++ " cannot send " ++ kind.name

/-- The wording of a fault. -/
def StorageFault.message : StorageFault → String
  | isDirectory => "Is a directory (os error 21)"
  | appendFailed => "failed to append block"
  | readFailed path => "failed to read " ++ Text.quoted path
  | replaceFailed path => "failed to replace " ++ Text.quoted path

/-- The abridged form of a parent in a message. -/
def shownParent : Option Digest → String
  | none => "None"
  | some d => "Some(" ++ d.shown ++ ")"

namespace Rejection

/-- The wording of a rejection. -/
def message : Rejection → String
  | invalidFormat fault => "invalid format: " ++ fault.message
  | notFound what => "not found: " ++ what.message
  | duplicateKey h => "duplicate key " ++ h.hex
  | duplicateTransaction h => "duplicate transaction " ++ h.hex
  | duplicateVote proposal voter =>
    voter ++ " has already voted on proposal " ++ proposal
  | fork expectedHeight expectedParent height parent =>
    "block does not extend tip: expected height " ++
      toString expectedHeight.toNat ++ " with parent " ++
      shownParent expectedParent ++ ", got height " ++ toString height.toNat ++
      " with parent " ++ shownParent parent
  | insufficientBalance a available required =>
    "insufficient balance: " ++ a ++ " holds " ++ toString available.toNat ++
      ", needs " ++ toString required.toNat
  | invalidAmount fault => "invalid amount: " ++ fault.message
  | invalidProposal fault => "invalid proposal: " ++ fault.message
  | invalidDelegation fault => "invalid delegation: " ++ fault.message
  | proposalClosed id => "proposal " ++ id ++ " is closed"
  | invalidNonce a expected got =>
    "invalid nonce for " ++ a ++ ": expected " ++ toString expected.toNat ++
      ", got " ++ toString got.toNat
  | unauthorized fault => "unauthorized: " ++ fault.message
  | invalidBlock fault => "invalid block: " ++ fault.message
  | storage fault => "storage error: " ++ fault.message

/-- Whether the same request may succeed later, after the tip has been read
again. -/
def isRetryable : Rejection → Bool
  | fork .. => true
  | storage _ => true
  | _ => false

end Rejection
end CouncilLedger
