import CouncilLedger.Electorate
import CouncilLedger.Proposal.Draft
import CouncilLedger.SortedMap

/-!
# Proposals

A proposal with its votes, its tally, and its status: as of a time, decided
early, or settled. Past the deadline the outcome is a function of the votes and
the electorate at the deadline alone.
-/

namespace CouncilLedger

/-- A recorded vote. -/
structure Vote where
  voter : String
  choice : Choice
  /-- The power of the voter when the vote was cast. -/
  weight : Amount
  timestamp : UInt64
  transaction : Digest
  /-- The delegators whose balances the vote carries. -/
  delegators : List String
deriving DecidableEq

/-- A proposal. -/
structure Proposal where
  /-- The hash of the creating transaction in hexadecimal digits. -/
  id : String
  creator : String
  title : String
  description : String
  kind : ProposalKind
  mode : VotingMode
  duration : UInt64
  threshold : UInt8
  status : Status
  createdAt : UInt64
  /-- The deadline. -/
  endsAt : UInt64
  createdHeight : UInt64
  funding : Option Funding
  /-- The vote of each voter. -/
  votes : SortedMap String Vote
  /-- The transaction that paid the proposal out. -/
  fundedBy : Option Digest
deriving DecidableEq

/-- The sums of the votes on a proposal. -/
structure Tally where
  yes : Amount
  no : Amount
  abstain : Amount
  cast : Amount
  voters : Nat
  threshold : UInt8
  /-- Whether yes beats no and reaches the threshold's share of the cast
  power. -/
  thresholdMet : Bool
deriving DecidableEq, Repr

namespace Proposal

/-- A new proposal, made at `now` in the block of `height`. -/
def ofDraft (id creator : String) (d : Draft) (now height : UInt64) :
    Proposal where
  id := id
  creator := creator
  title := d.title
  description := d.description
  kind := d.kind
  mode := d.mode
  duration := d.duration
  threshold := (min d.threshold 100).toUInt8
  status := .running
  createdAt := now
  endsAt := Amount.addCapped now d.duration
  createdHeight := height
  funding := d.funding
  votes := .empty
  fundedBy := none

/-! ## Tally -/

/-- The power behind a choice. -/
def sumOf (choice : Choice) (votes : List Vote) : Amount :=
  votes.foldl (fun sum v =>
    if v.choice = choice then Amount.addCapped sum v.weight else sum) 0

/-- The sums of the votes. -/
def tally (p : Proposal) : Tally :=
  let yes := sumOf .yes p.votes.values
  let no := sumOf .no p.votes.values
  let abstain := sumOf .abstain p.votes.values
  let cast := Amount.addCapped (Amount.addCapped yes no) abstain
  { yes, no, abstain, cast
    voters := p.votes.size
    threshold := p.threshold
    thresholdMet := no < yes ∧ p.threshold.toNat * cast.toNat ≤ yes.toNat * 100 }

/-- Whether an account has voted, or a vote carries its power. -/
def powerUsedBy (p : Proposal) (address : String) : Bool :=
  p.votes.contains address ||
    p.votes.values.any (fun v => v.delegators.contains address)

/-! ## Status -/

/-- The outcome that no further vote can change, as far as the electorate `e`
shows: passed when yes has more than half of all power and the threshold's
share of it, rejected when no has at least half. -/
def earlyOutcome (p : Proposal) (e : Electorate) : Option Status :=
  let power := (e.power p.mode).toNat
  let yes := p.tally.yes.toNat
  let no := p.tally.no.toNat
  if power = 0 then none
  else if power < yes * 2 ∧ p.threshold.toNat * power ≤ yes * 100 then
    some .passed
  else if power ≤ no * 2 then some .rejected
  else none

/-- The outcome once the deadline has come, for an electorate of `power`:
expired when nothing was cast or the quorum is missed, else passed or rejected
as the tally says. -/
def finalOutcome (p : Proposal) (power : Amount) (rules : Rules) : Status :=
  let t := p.tally
  if t.cast = 0 ∨
    t.cast.toNat * 100 < rules.quorumPercent.toNat * power.toNat then .expired
  else if t.thresholdMet then .passed
  else .rejected

/-- The status as of `now`. A recorded outcome is final, and before the deadline
a running proposal stays so; from the deadline on the electorate counts as it
stood then. -/
def statusAt (p : Proposal) (now : UInt64) (electorate : UInt64 → Electorate)
    (rules : Rules) : Status :=
  if p.status ≠ .running ∨ now < p.endsAt then p.status
  else p.finalOutcome ((electorate p.endsAt).power p.mode) rules

/-- The status that is recorded at `now`: the one as of the deadline, or before
it the outcome that is already certain. -/
def settledStatus (p : Proposal) (now : UInt64)
    (electorate : UInt64 → Electorate) (rules : Rules) : Status :=
  if p.status ≠ .running then p.status
  else if p.endsAt ≤ now then p.statusAt now electorate rules
  else (p.earlyOutcome (electorate now)).getD .running

/-- The proposal with its status as of `now`. -/
def asOf (p : Proposal) (now : UInt64) (electorate : UInt64 → Electorate)
    (rules : Rules) : Proposal :=
  { p with status := p.statusAt now electorate rules }

/-! ## Voting -/

/-- Record a vote, and with it the outcome if that is now certain. There is one
vote for each voter, and it stays. -/
def addVote (p : Proposal) (v : Vote) (now : UInt64)
    (electorate : UInt64 → Electorate) (rules : Rules) :
    Except Rejection Proposal :=
  if p.statusAt now electorate rules ≠ .running then
    .error (.proposalClosed p.id)
  else if p.votes.contains v.voter then .error (.duplicateVote p.id v.voter)
  else
    let voted := { p with votes := p.votes.insert v.voter v }
    .ok { voted with
      status := (voted.earlyOutcome (electorate now)).getD voted.status }

end Proposal
end CouncilLedger
