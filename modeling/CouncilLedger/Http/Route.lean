import CouncilLedger.Encoding
import CouncilLedger.Text.Hex

/-!
# Routes

Which path asks for what. A path leads to a view, which is read, or to an order,
which is posted. Names within a path are still encoded in a route: a percent
sign and two hexadecimal digits stand for a byte. A percent sign without them,
and a plus sign, stand for themselves.
-/

namespace CouncilLedger.Http

/-! ## Encoded names -/

namespace Percent

/-- The bytes that some bytes stand for; 37 is the code of the percent sign. -/
def decodeBytes : List UInt8 → List UInt8
  | 37 :: high :: low :: rest =>
    match Text.hexValue? high, Text.hexValue? low with
    | some h, some l => (h <<< 4 ||| l) :: decodeBytes rest
    | _, _ => 37 :: decodeBytes (high :: low :: rest)
  | b :: rest => b :: decodeBytes rest
  | [] => []

/-- The text that a part of a path stands for, if its bytes are text. -/
def decode? (s : String) : Option String :=
  (Text.decode? (decodeBytes (Text.encode s.toList))).map String.ofList

end Percent

/-! ## Paths -/

/-- What can be read; a name is still encoded. -/
inductive View where
  | summary
  | block (key : String)
  | transaction (hash : String)
  | proposals
  | proposal (id : String)
  | count (id : String)
  | votes (id : String)
  | treasury
  | balance (address : String)
  | supply
  | delegation (address : String)
  | delegations
  | votingPower (address : String)
deriving DecidableEq, Repr

/-- What can be posted. -/
inductive Order where
  | block
  | propose
  | vote
  | payOut
  | transfer
  | delegate
  | revoke
deriving DecidableEq, Repr

/-- What a path leads to. -/
inductive Route where
  | view (v : View)
  | order (o : Order)
deriving DecidableEq, Repr

namespace Route

/-- A text split at each slash. -/
def segments : List Char → List (List Char)
  | [] => [[]]
  | c :: rest =>
    if c = '/' then [] :: segments rest
    else match segments rest with
      | [] => [[c]]
      | s :: more => (c :: s) :: more

/-- What follows the server of a target that is a whole address, with a scheme
and a server in front of the path; other targets start with the path. -/
def afterServer (target : List Char) : List Char :=
  match target.dropWhile fun c => c.isAlphanum || "+-.".toList.contains c with
  | ':' :: '/' :: '/' :: rest => rest.dropWhile fun c => !"/?#".toList.contains c
  | _ => target

/-- The path of a target, without its query. -/
def path (target : String) : List Char :=
  (afterServer target.toList).takeWhile fun c => c != '?' && c != '#'

/-- The route of the segments of a path. -/
def ofSegments? : List String → Option Route
  | ["status"] => some (.view .summary)
  | ["block"] => some (.order .block)
  | ["block", key] => some (.view (.block key))
  | ["tx", hash] => some (.view (.transaction hash))
  | ["dao", "proposals"] => some (.view .proposals)
  | ["dao", "proposal"] => some (.order .propose)
  | ["dao", "proposal", id] => some (.view (.proposal id))
  | ["dao", "proposal", id, "tally"] => some (.view (.count id))
  | ["dao", "proposal", id, "votes"] => some (.view (.votes id))
  | ["dao", "vote"] => some (.order .vote)
  | ["dao", "treasury"] => some (.view .treasury)
  | ["dao", "treasury", "transfer"] => some (.order .payOut)
  | ["dao", "token", "balance", address] => some (.view (.balance address))
  | ["dao", "token", "supply"] => some (.view .supply)
  | ["dao", "token", "transfer"] => some (.order .transfer)
  | ["dao", "delegate"] => some (.order .delegate)
  | ["dao", "revoke-delegation"] => some (.order .revoke)
  | ["dao", "delegation", address] => some (.view (.delegation address))
  | ["dao", "delegations"] => some (.view .delegations)
  | ["dao", "voting-power", address] => some (.view (.votingPower address))
  | _ => none

/-- The route of a target. The last segment of a path is not empty; a name
before it may be. -/
def ofTarget? (target : String) : Option Route :=
  match path target with
  | '/' :: rest =>
    let names := segments rest
    if names.getLast? == some [] then none
      else ofSegments? (names.map String.ofList)
  | _ => none

end Route
end CouncilLedger.Http
