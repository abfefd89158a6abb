import CouncilLedger.Json.Basic
import CouncilLedger.Digest
import CouncilLedger.SortedMap

/-!
# Records in JSON

A record is an object with a member for each part, or an array of its parts in
order. Members of other names are passed over, and a part that is given twice
makes the record unreadable. How an absent part reads is up to the part.
-/

namespace CouncilLedger.Json

/-! ## Scalars -/

/-- A text. -/
def text? : Json → Option String
  | str s => some s
  | _ => none

/-- A whole number of 64 bits without sign. -/
def word? : Json → Option UInt64
  | int (.ofNat n) => if n < UInt64.size then some (UInt64.ofNat n) else none
  | _ => none

/-- A whole number of eight bits without sign. -/
def byte? : Json → Option UInt8
  | int (.ofNat n) => if n < UInt8.size then some (UInt8.ofNat n) else none
  | _ => none

/-- A whole number of 64 bits with sign. -/
def signed? : Json → Option Int
  | int n =>
    if -0x8000000000000000 ≤ n ∧ n < 0x8000000000000000 then some n else none
  | _ => none

/-- A digest as hexadecimal text. -/
def digest? (v : Json) : Option Digest := do
  (Digest.ofHex (← v.text?)).toOption

/-- A digest as its 64 digits. -/
def digest (d : Digest) : Json := str d.hex

/-- The name of one of several cases: a text, or an object that holds nothing
but the name with `null`. -/
def caseName? : Json → Option String
  | str s => some s
  | obj [(s, null)] => some s
  | _ => none

/-- The parts of an array, each read by `read`. -/
def list? {α : Type} (read : Json → Option α) : Json → Option (List α)
  | arr items => items.mapM read
  | _ => none

/-- The members of an object as a map; of two with one name the later holds. -/
def map? {α : Type} (read : Json → Option α) :
    Json → Option (SortedMap String α)
  | obj members =>
    (members.mapM fun m => (read m.2).map (m.1, ·)).map SortedMap.ofList
  | _ => none

/-- A map as an object. -/
def map {α : Type} (write : α → Json) (m : SortedMap String α) : Json :=
  obj (m.entries.map fun e => (e.1, write e.2))

/-! ## Records -/

/-- The parts of a record that were given, under their names. -/
structure Record where
  parts : List (String × Json)

/-- Whether a name occurs twice. -/
def hasRepeat : List String → Bool
  | [] => false
  | name :: rest => rest.contains name || hasRepeat rest

/-- The members of an object that have one of `names`. -/
def members? (names : List String) : Json → Option Record
  | obj members =>
    let known := members.filter fun m => names.contains m.1
    if hasRepeat (known.map (·.1)) then none else some ⟨known⟩
  | _ => none

/-- The parts named `names` of a record, from an object or an array. -/
def record? (names : List String) (v : Json) : Option Record :=
  match v with
  | arr items =>
    if items.length ≤ names.length then some ⟨names.zip items⟩ else none
  | v => v.members? names

/-- The value with the members of an object named `old` called `new`. -/
def renamed (old new : String) : Json → Json
  | obj members => obj (members.map fun m => if m.1 = old then (new, m.2) else m)
  | v => v

namespace Record

/-- The part of a name, if it was given. -/
def part? (r : Record) (name : String) : Option Json := r.parts.lookup name

/-- A part that has to be given. -/
def required {α : Type} (r : Record) (name : String) (read : Json → Option α) :
    Option α :=
  r.part? name >>= read

/-- A part that is `d` when it is absent. -/
def withDefault {α : Type} (r : Record) (name : String) (d : α)
    (read : Json → Option α) : Option α :=
  match r.part? name with
  | none => some d
  | some v => read v

/-- A part that may be absent or `null`. -/
def optional {α : Type} (r : Record) (name : String) (read : Json → Option α) :
    Option (Option α) :=
  match r.part? name with
  | none => some none
  | some null => some none
  | some v => (read v).map some

end Record
end CouncilLedger.Json
