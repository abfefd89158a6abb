import CouncilLedger.Address
import CouncilLedger.Rejection
import CouncilLedger.Text.Classes

/-!
# Drafts of proposals

A proposal as its creator hands it in, the rules of governance, which may be
tuned without changing the program, and the checks that a draft has to pass.
-/

namespace CouncilLedger

/-- The rules that proposals and votes are subject to. -/
structure Rules where
  /-- What a creator has to hold. -/
  minProposalBalance : UInt64 := 0
  /-- The longest voting period in seconds; thirty days unless set. -/
  maxDuration : UInt64 := 2592000
  /-- The share of the electorate, in percent, that has to vote for a result
  to count. -/
  quorumPercent : UInt8 := 0
deriving DecidableEq, Repr, Inhabited

/-- A payout that a proposal asks for. -/
structure Funding where
  recipient : String
  amount : Amount
deriving DecidableEq, Repr

/-- A proposal as it is handed in. -/
structure Draft where
  title : String
  description : String
  kind : ProposalKind
  mode : VotingMode
  /-- The voting period in seconds. -/
  duration : UInt64
  /-- The share of the cast power, in percent, that the winning side needs. -/
  threshold : UInt64
  funding : Option Funding
deriving DecidableEq, Repr

namespace Draft

/-- The most bytes of a title. -/
def maxTitle : Nat := 200

/-- The most bytes of a description. -/
def maxDescription : Nat := 10000

/-- Whether a text is neither blank nor of more than `n` bytes. -/
def fits (n : Nat) (s : String) : Bool :=
  !Text.isBlank s.toList && s.utf8ByteSize ≤ n

/-- The check of the funding against the kind of the proposal: treasury
proposals ask for a payout, others do not. -/
def checkFunding (kind : ProposalKind) (funding : Option Funding) :
    Except ProposalFault Unit :=
  match kind, funding with
  | .treasury, none => .error .fundingMissing
  | .treasury, some f =>
    match Address.check f.recipient with
    | .error fault => .error (.fundingRecipient fault)
    | .ok () => if f.amount = 0 then .error .fundingOfZero else .ok ()
  | kind, some _ => .error (.fundingNotAllowed kind)
  | _, none => .ok ()

/-- Accept a draft that keeps the rules. -/
def check (d : Draft) (rules : Rules) : Except ProposalFault Unit :=
  if !fits maxTitle d.title then .error .titleLength
  else if !fits maxDescription d.description then .error .descriptionLength
  else if d.duration = 0 then .error .zeroDuration
  else if rules.maxDuration < d.duration then
    .error (.durationTooLong d.duration rules.maxDuration)
  else if 100 < d.threshold then .error (.threshold d.threshold.toNat)
  else checkFunding d.kind d.funding

end Draft
end CouncilLedger
