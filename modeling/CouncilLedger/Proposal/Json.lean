import CouncilLedger.Json.Record
import CouncilLedger.Proposal.Basic

/-!
# JSON of proposals

Drafts, votes, proposals and tallies as records.
-/

namespace CouncilLedger

/-! ## Drafts -/

/-- A payout as a record. -/
def Funding.toJson (f : Funding) : Json :=
  .obj [("recipient", .str f.recipient), ("amount", .word f.amount)]

/-- The payout of a record. -/
def Funding.ofJson? (v : Json) : Option Funding := do
  let r ← v.record? ["recipient", "amount"]
  return {
    recipient := ← r.required "recipient" Json.text?
    amount := ← r.required "amount" Json.word? }

namespace Draft

/-- The parts of a draft in order. -/
def partNames : List String :=
  ["title", "description", "proposal_type", "voting_type", "duration",
    "threshold", "funding"]

/-- The parts of a draft. -/
def toMembers (d : Draft) : List (String × Json) :=
  [("title", .str d.title), ("description", .str d.description),
   ("proposal_type", .str d.kind.name), ("voting_type", .str d.mode.name),
   ("duration", .word d.duration), ("threshold", .word d.threshold)] ++
    Json.whenSome "funding" Funding.toJson d.funding

/-- A draft as a record. -/
def toJson (d : Draft) : Json := .obj d.toMembers

/-- The draft of a record whose cases are named as `caseName` reads them. The
mode is weighted unless given. -/
def ofRecord? (caseName : Json → Option String) (r : Json.Record) :
    Option Draft := do
  return {
    title := ← r.required "title" Json.text?
    description := ← r.required "description" Json.text?
    kind := ← r.required "proposal_type"
      (fun v => caseName v >>= ProposalKind.ofName?)
    mode := ← r.withDefault "voting_type" .weighted
      (fun v => caseName v >>= VotingMode.ofName?)
    duration := ← r.required "duration" Json.word?
    threshold := ← r.required "threshold" Json.word?
    funding := ← r.optional "funding" Funding.ofJson? }

/-- The draft of a record. -/
def ofJson? (v : Json) : Option Draft :=
  v.record? partNames >>= ofRecord? Json.caseName?

end Draft

/-! ## Votes -/

namespace Vote

/-- A vote as a record; delegators are left out when there are none. -/
def toJson (v : Vote) : Json :=
  .obj ([("voter", .str v.voter), ("choice", .str v.choice.name),
    ("weight", .word v.weight), ("timestamp", .word v.timestamp),
    ("tx_hash", .digest v.transaction)] ++
    (if v.delegators.isEmpty then []
      else [("delegators", .arr (v.delegators.map .str))]))

/-- The vote of a record. -/
def ofJson? (v : Json) : Option Vote := do
  let r ← v.record? ["voter", "choice", "weight", "timestamp",
    "tx_hash", "delegators"]
  return {
    voter := ← r.required "voter" Json.text?
    choice := ← r.required "choice" (fun v => v.caseName? >>= Choice.ofName?)
    weight := ← r.required "weight" Json.word?
    timestamp := ← r.required "timestamp" Json.word?
    transaction := ← r.required "tx_hash" Json.digest?
    delegators := ← r.withDefault "delegators" [] (Json.list? Json.text?) }

end Vote

/-! ## Proposals -/

namespace Proposal

/-- A proposal as a record. -/
def toJson (p : Proposal) : Json :=
  .obj ([("id", .str p.id), ("creator", .str p.creator), ("title", .str p.title),
    ("description", .str p.description), ("proposal_type", .str p.kind.name),
    ("voting_type", .str p.mode.name), ("duration", .word p.duration),
    ("threshold", .nat p.threshold.toNat), ("status", .str p.status.name),
    ("created_at", .word p.createdAt), ("voting_ends_at", .word p.endsAt),
    ("created_height", .word p.createdHeight)] ++
    Json.whenSome "funding" Funding.toJson p.funding ++
    [("votes", .map Vote.toJson p.votes)] ++
    Json.whenSome "funded_by" Json.digest p.fundedBy)

/-- The proposal of a record. -/
def ofJson? (v : Json) : Option Proposal := do
  let r ← v.record? ["id", "creator", "title", "description", "proposal_type",
    "voting_type", "duration", "threshold", "status", "created_at",
    "voting_ends_at", "created_height", "funding", "votes", "funded_by"]
  return {
    id := ← r.required "id" Json.text?
    creator := ← r.required "creator" Json.text?
    title := ← r.required "title" Json.text?
    description := ← r.required "description" Json.text?
    kind := ← r.required "proposal_type"
      (fun v => v.caseName? >>= ProposalKind.ofName?)
    mode := ← r.required "voting_type"
      (fun v => v.caseName? >>= VotingMode.ofName?)
    duration := ← r.required "duration" Json.word?
    threshold := ← r.required "threshold" Json.byte?
    status := ← r.required "status" (fun v => v.caseName? >>= Status.ofName?)
    createdAt := ← r.required "created_at" Json.word?
    endsAt := ← r.required "voting_ends_at" Json.word?
    createdHeight := ← r.required "created_height" Json.word?
    funding := ← r.optional "funding" Funding.ofJson?
    votes := ← r.required "votes" (Json.map? Vote.ofJson?)
    fundedBy := ← r.optional "funded_by" Json.digest? }

end Proposal

/-- The parts of a tally. -/
def Tally.toMembers (t : Tally) : List (String × Json) :=
  [("yes", .word t.yes), ("no", .word t.no), ("abstain", .word t.abstain),
   ("cast", .word t.cast), ("voters", .nat t.voters),
   ("threshold", .nat t.threshold.toNat),
   ("threshold_met", .bool t.thresholdMet)]

/-- A tally as a record. -/
def Tally.toJson (t : Tally) : Json := .obj t.toMembers

end CouncilLedger
