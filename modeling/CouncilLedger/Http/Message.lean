import CouncilLedger.Encoding
import CouncilLedger.Json.Basic
import CouncilLedger.Rejection

/-!
# Requests and responses

What comes in over HTTP and what goes out, and the status that each reason to
refuse is answered with.
-/

namespace CouncilLedger

namespace Http

/-- What a request carries, as it is sent. -/
structure Payload where
  bytes : List UInt8
deriving DecidableEq, Repr

/-- A text is sent in UTF-8. -/
instance : Coe String Payload := ⟨fun s => ⟨Text.encode s.toList⟩⟩

/-- The most bytes that a payload may have. -/
def Payload.limit : Nat := 2097152

/-- The characters of a payload, if it is text and not too long. -/
def Payload.text? (p : Payload) : Option (List Char) :=
  if p.bytes.length ≤ limit then Text.decode? p.bytes else none

/-- A request. -/
structure Request where
  method : String
  /-- The path with the query after it. -/
  target : String
  contentType : Option String
  body : Payload
deriving DecidableEq, Repr

/-- The outcome of a request. -/
inductive Status where
  | ok
  | badRequest
  | forbidden
  | notFound
  | methodNotAllowed
  | conflict
  | internalError
deriving DecidableEq, Repr

/-- The number of a status. -/
def Status.code : Status → Nat
  | ok => 200
  | badRequest => 400
  | forbidden => 403
  | notFound => 404
  | methodNotAllowed => 405
  | conflict => 409
  | internalError => 500

/-- What a response carries. -/
inductive Body where
  | value (v : Json)
  | text (s : String)

/-- A response; its body may be absent. -/
structure Response where
  status : Status
  body : Option Body

/-- A response that carries a value. -/
def Response.value (v : Json) : Response := ⟨.ok, some (.value v)⟩

/-- A response that carries nothing. -/
def Response.bare (status : Status) : Response := ⟨status, none⟩

/-- A response that says what went wrong. -/
def Response.failure (status : Status) (message : String) : Response :=
  ⟨status, some (.value (.obj [("error", .str message)]))⟩

/-- The response to a path in which the bytes that stand for `part` are no
text. -/
def Response.badPath (part : String) : Response :=
  ⟨.badRequest,
    some (.text ("Invalid URL: Invalid UTF-8 in \x60" ++ part ++ "\x60"))⟩

end Http

/-- The status that a rejection is answered with. -/
def Rejection.status : Rejection → Http.Status
  | invalidFormat _ => .badRequest
  | invalidAmount _ => .badRequest
  | invalidProposal _ => .badRequest
  | invalidDelegation _ => .badRequest
  | insufficientBalance .. => .badRequest
  | invalidNonce .. => .badRequest
  | invalidBlock _ => .badRequest
  | notFound _ => .notFound
  | duplicateKey _ => .conflict
  | duplicateTransaction _ => .conflict
  | duplicateVote .. => .conflict
  | fork .. => .conflict
  | proposalClosed _ => .conflict
  | unauthorized _ => .forbidden
  | storage _ => .internalError

end CouncilLedger
