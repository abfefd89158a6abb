import CouncilLedger.Amount

/-!
# Ballots

The closed vocabularies of voting: how a balance turns into voting power, what
a voter can say, what a proposal is about, and where it stands. Each case has
the name under which it is written.
-/

namespace CouncilLedger

/-! ## Voting modes -/

/-- How a balance turns into voting power. -/
inductive VotingMode where
  /-- One holder, one vote. -/
  | simple
  /-- One token, one vote. -/
  | weighted
  /-- The integer square root of the balance. -/
  | quadratic
deriving DecidableEq, Repr

namespace VotingMode

/-- The name of a mode. -/
def name : VotingMode → String
  | simple => "simple"
  | weighted => "weighted"
  | quadratic => "quadratic"

/-- The mode of a name; two older names of the weighted mode are read too. -/
def ofName? : String → Option VotingMode
  | "simple" => some simple
  | "weighted" => some weighted
  | "token-based" => some weighted
  | "token_based" => some weighted
  | "quadratic" => some quadratic
  | _ => none

/-- The voting power of a holder of `balance` tokens. -/
def weight (mode : VotingMode) (balance : Amount) : Amount :=
  if balance = 0 then 0
  else match mode with
    | simple => 1
    | weighted => balance
    | quadratic => Amount.isqrt balance

end VotingMode

/-! ## Choices -/

/-- What a voter says. -/
inductive Choice where
  | yes
  | no
  | abstain
deriving DecidableEq, Repr

namespace Choice

/-- The name of a choice. -/
def name : Choice → String
  | yes => "yes"
  | no => "no"
  | abstain => "abstain"

/-- The choice of a name. -/
def ofName? : String → Option Choice
  | "yes" => some yes
  | "no" => some no
  | "abstain" => some abstain
  | _ => none

end Choice

/-! ## Kinds of proposals -/

/-- What a proposal is about. -/
inductive ProposalKind where
  | general
  /-- Spends common funds once it has passed. -/
  | treasury
  | technical
  | parameter
deriving DecidableEq, Repr

namespace ProposalKind

/-- The name of a kind. -/
def name : ProposalKind → String
  | general => "general"
  | treasury => "treasury"
  | technical => "technical"
  | parameter => "parameter"

/-- The kind of a name. -/
def ofName? : String → Option ProposalKind
  | "general" => some general
  | "treasury" => some treasury
  | "technical" => some technical
  | "parameter" => some parameter
  | _ => none

end ProposalKind

/-! ## Statuses -/

/-- Where a proposal stands. -/
inductive Status where
  /-- Votes are taken. -/
  | running
  | passed
  | rejected
  /-- The deadline came with too few votes. -/
  | expired
deriving DecidableEq, Repr

namespace Status

/-- The name of a status. -/
def name : Status → String
  | running => "open"
  | passed => "passed"
  | rejected => "rejected"
  | expired => "expired"

/-- The name of a status within a message. -/
def title : Status → String
  | running => "Open"
  | passed => "Passed"
  | rejected => "Rejected"
  | expired => "Expired"

/-- The status of a name. -/
def ofName? : String → Option Status
  | "open" => some running
  | "passed" => some passed
  | "rejected" => some rejected
  | "expired" => some expired
  | _ => none

end Status

/-! ## Kinds of actions -/

/-- What a transaction does. -/
inductive ActionKind where
  | mint
  | transfer
  | propose
  | vote
  | payOut
  | delegate
  | revoke
deriving DecidableEq, Repr

namespace ActionKind

/-- The name of a kind of action. -/
def name : ActionKind → String
  | mint => "mint"
  | transfer => "transfer"
  | propose => "proposal_create"
  | vote => "vote"
  | payOut => "treasury_transfer"
  | delegate => "delegate"
  | revoke => "revoke_delegation"

/-- The kinds in the order in which they are numbered. -/
def all : List ActionKind :=
  [mint, transfer, propose, vote, payOut, delegate, revoke]

/-- The kind of a name. -/
def ofName? (s : String) : Option ActionKind := all.find? (fun k => k.name == s)

end ActionKind
end CouncilLedger
