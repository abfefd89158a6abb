import CouncilLedger.Http.MediaType
import CouncilLedger.Http.Message
import CouncilLedger.Http.Route
import CouncilLedger.Node
import CouncilLedger.Query.Json

/-!
# The HTTP interface

Requests against a node. A view reads the chain. An order takes a record from
the body, finds the sender, checks what the record asks for, and only then
writes; so what is refused before has no effect.
-/

namespace CouncilLedger.Http

/-! ## Views -/

/-- The value that a view shows of a chain. -/
def View.read (c : Chain) (clock : UInt64) : View → Except Rejection Json
  | .summary => .ok c.summary.toJson
  | .block key => (c.findBlock key).map (·.toJson)
  | .transaction hash => (c.findTransaction hash).map (·.toJson)
  | .proposals => .ok (.arr ((c.findProposals clock).map (·.toJson)))
  | .proposal id => (c.findProposal clock id).map (·.toJson)
  | .count id => (c.findCount clock id).map (·.toJson)
  | .votes id => (c.findVotes clock id).map fun vs => .arr (vs.map (·.toJson))
  | .treasury => .ok c.treasuryReport.toJson
  | .balance address => (c.holding address).map (·.toJson)
  | .supply => .ok (supplyJson c.accounts.supply)
  | .delegation address => (c.findLoan clock address).map (·.toJson)
  | .delegations => .ok (.arr ((c.findLoans clock).map (·.toJson)))
  | .votingPower address => (c.votingPower clock address).map (·.toJson)

/-- A name in a path decoded, or else what it names. -/
def decodedName (part name : String) : Except String String :=
  match Percent.decode? name with
  | some s => .ok s
  | none => .error part

/-- The view with the names in it decoded, or else which of them is no text. -/
def View.decoded : View → Except String View
  | block key => (decodedName "hashorid" key).map block
  | transaction hash => (decodedName "hash" hash).map transaction
  | proposal id => (decodedName "id" id).map proposal
  | count id => (decodedName "id" id).map count
  | votes id => (decodedName "id" id).map votes
  | balance address => (decodedName "address" address).map balance
  | delegation address => (decodedName "address" address).map delegation
  | votingPower address => (decodedName "address" address).map votingPower
  | v => .ok v

/-! ## Orders -/

/-- What a body asks for: an action, unless something is wrong with it, of a
sender who may be left out. -/
structure Demand where
  sender : Option String
  action : Except Rejection Action

/-- An amount that has to be positive. -/
def positive (field : String) (n : Int) : Except Rejection UInt64 :=
  if n ≤ 0 then .error (.invalidAmount (.notPositive field n))
  else .ok (UInt64.ofNat n.toNat)

/-- The demand for a transfer. -/
def transferDemand? (v : Json) : Option Demand := do
  let r ← v.record? ["from", "to", "amount"]
  let sender ← r.optional "from" Json.text?
  let recipient ← r.required "to" Json.text?
  let amount ← r.required "amount" Json.signed?
  return ⟨sender, do return .transfer recipient (← positive "amount" amount)⟩

/-- The draft of a demand, if its numbers are in range. -/
def checkedDraft (d : UInt64 → UInt64 → Draft) (duration threshold : Int) :
    Except Rejection Action :=
  if duration ≤ 0 then .error (.invalidProposal (.durationNotPositive duration))
  else if threshold < 0 ∨ 100 < threshold then
    .error (.invalidProposal (.threshold threshold))
  else .ok
    (.propose (d (UInt64.ofNat duration.toNat) (UInt64.ofNat threshold.toNat)))

/-- The demand for a proposal. -/
def proposalDemand? (v : Json) : Option Demand := do
  let r ← v.record? ("creator" :: Draft.partNames)
  let sender ← r.optional "creator" Json.text?
  let title ← r.required "title" Json.text?
  let description ← r.required "description" Json.text?
  let kind ← r.required "proposal_type"
    (fun v => v.caseName? >>= ProposalKind.ofName?)
  let mode ← r.withDefault "voting_type" .weighted
    (fun v => v.caseName? >>= VotingMode.ofName?)
  let duration ← r.required "duration" Json.signed?
  let threshold ← r.required "threshold" Json.signed?
  let funding ← r.optional "funding" Funding.ofJson?
  return ⟨sender, checkedDraft
    (fun duration threshold =>
      { title, description, kind, mode, duration, threshold, funding })
    duration threshold⟩

/-- The demand for a vote. -/
def voteDemand? (v : Json) : Option Demand := do
  let r ← v.record? ["voter", "proposal_id", "choice"]
  let sender ← r.optional "voter" Json.text?
  let id ← r.required "proposal_id" Json.text?
  let choice ← r.required "choice" (fun v => v.caseName? >>= Choice.ofName?)
  return ⟨sender,
    do return .vote (← Ledger.wellFormed (Council.normalizeId id)) choice⟩

/-- The demand for a payout; its recipient has two names. -/
def payOutDemand? (v : Json) : Option Demand := do
  let r ← (v.renamed "recipient" "to").record?
    ["executor", "proposal_id", "to", "amount"]
  let sender ← r.optional "executor" Json.text?
  let id ← r.required "proposal_id" Json.text?
  let recipient ← r.required "to" Json.text?
  let amount ← r.required "amount" Json.signed?
  return ⟨sender, do
    let id ← Ledger.wellFormed (Council.normalizeId id)
    return .payOut id recipient (← positive "amount" amount)⟩

/-- The demand for a delegation. -/
def delegationDemand? (v : Json) : Option Demand := do
  let r ← v.record? ["delegator", "delegate", "duration"]
  let sender ← r.optional "delegator" Json.text?
  let holder ← r.required "delegate" Json.text?
  let duration ← r.required "duration" Json.signed?
  return ⟨sender,
    if duration ≤ 0 then
      .error (.invalidDelegation (.durationNotPositive duration))
    else .ok (.delegate holder (UInt64.ofNat duration.toNat))⟩

/-- The demand for the end of a delegation. -/
def revocationDemand? (v : Json) : Option Demand := do
  let r ← v.record? ["delegator"]
  return ⟨← r.optional "delegator" Json.text?, .ok .revoke⟩

/-- The action of a demand with its sender. -/
def Demand.resolve (d : Demand) (defaultSender : Option String) :
    Except Rejection (String × Action) :=
  match d.sender <|> defaultSender with
  | none => .error (.invalidFormat .noSender)
  | some sender => d.action.map fun action => (sender, action)

/-- The answer to an action that was committed. -/
def receiptJson (c : Chain) (clock : UInt64) (action : Action)
    (receipt : Receipt) : Except Rejection Json :=
  match action with
  | .propose _ =>
    .ok (.obj (("id", .digest receipt.transaction) :: receipt.toMembers))
  | .vote id _ =>
    (c.council.proposalAt id clock c.standing.electorateAt).map fun p =>
      .obj ([("proposal_id", .str id), ("status", .str p.status.name)] ++
        receipt.toMembers)
  | _ => .ok receipt.toJson

/-! ## Responses -/

/-- The response to a result. -/
def Response.ofResult : Except Rejection Json → Response
  | .ok v => .value v
  | .error r => .failure r.status r.message

/-- The response to a body that is no record of the kind asked for. -/
def Response.badBody : Response := .failure .badRequest "invalid request body"

/-- The value at the start of a body that is sent as JSON. -/
def Request.json? (r : Request) : Option Json :=
  if r.contentType.any MediaType.isJson then r.body.text? >>= Json.readFirst
  else none

/-- Carry out a demand. -/
def carryOut (n : Node) (m : Moment) (defaultSender : Option String)
    (d : Demand) : Response × Node :=
  match d.resolve defaultSender with
  | .error r => (.failure r.status r.message, n)
  | .ok (sender, action) =>
    let (outcome, next) := n.submit m sender action
    (.ofResult (outcome >>= receiptJson next.chain m.clock action), next)

/-- Append a block that was made elsewhere. -/
def appendBlock (n : Node) (m : Moment) (b : Block) : Response × Node :=
  let (outcome, next) := n.commit m b
  (.ofResult (outcome.map fun _ =>
    .obj [("height", .word b.height), ("hash", .digest b.hash)]), next)

/-- Carry out an order with the value of its body. -/
def obey (n : Node) (m : Moment) (defaultSender : Option String) (v : Json) :
    Order → Response × Node
  | .block => ((Block.ofJson? v).map (appendBlock n m)).getD (.badBody, n)
  | .propose =>
    ((proposalDemand? v).map (carryOut n m defaultSender)).getD (.badBody, n)
  | .vote =>
    ((voteDemand? v).map (carryOut n m defaultSender)).getD (.badBody, n)
  | .payOut =>
    ((payOutDemand? v).map (carryOut n m defaultSender)).getD (.badBody, n)
  | .transfer =>
    ((transferDemand? v).map (carryOut n m defaultSender)).getD (.badBody, n)
  | .delegate =>
    ((delegationDemand? v).map (carryOut n m defaultSender)).getD (.badBody, n)
  | .revoke =>
    ((revocationDemand? v).map (carryOut n m defaultSender)).getD (.badBody, n)

/-- The response to a view. -/
def look (n : Node) (m : Moment) (v : View) : Response :=
  match v.decoded with
  | .error part => .badPath part
  | .ok v => .ofResult (v.read n.chain m.clock)

/-- Respond to a request. Views are read by `GET`, or by `HEAD` without their
value; orders are posted; and any path answers `OPTIONS`. -/
def respond (n : Node) (m : Moment) (defaultSender : Option String)
    (r : Request) : Response × Node :=
  if r.method = "OPTIONS" then (.bare .ok, n)
  else match Route.ofTarget? r.target with
    | none => (.bare .notFound, n)
    | some (.view v) =>
      if r.method = "GET" then (look n m v, n)
      else if r.method = "HEAD" then (.bare (look n m v).status, n)
      else (.bare .methodNotAllowed, n)
    | some (.order o) =>
      if r.method ≠ "POST" then (.bare .methodNotAllowed, n)
      else match r.json? with
        | none => (.badBody, n)
        | some v => obey n m defaultSender v o

end CouncilLedger.Http
