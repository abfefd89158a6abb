/-!
# JSON values

Values as the text of a record gives them. An object keeps its members in the
order and number in which they were written, so that a reader may refuse a
member that is given twice. Whole numbers of 64 bits are exact; any other
numeral is kept as text, because no record holds one.
-/

namespace CouncilLedger

/-- A JSON value. -/
inductive Json where
  | null
  | bool (b : Bool)
  /-- A numeral without fraction or exponent, other than minus zero, whose value
  fits into a signed or an unsigned 64-bit word. -/
  | int (n : Int)
  /-- Any other numeral. -/
  | fraction (numeral : String)
  | str (s : String)
  /-- Text with the shape of a value that denotes none: a string or a key that
  holds half of a surrogate pair, a numeral beyond the largest double, or an
  array or object nested too deep. -/
  | unreadable
  | arr (items : List Json)
  | obj (members : List (String × Json))
deriving Inhabited

namespace Json

/-! ## Values that denote something -/

mutual
/-- Whether the value and all that it holds denote something. -/
def denotes : Json → Bool
  | unreadable => false
  | arr items => itemsDenote items
  | obj members => membersDenote members
  | _ => true

/-- Whether all of some values denote something. -/
def itemsDenote : List Json → Bool
  | [] => true
  | v :: rest => denotes v && itemsDenote rest

/-- Whether the values of all of some members denote something. -/
def membersDenote : List (String × Json) → Bool
  | [] => true
  | (_, v) :: rest => denotes v && membersDenote rest
end

/-- How deep arrays and objects of a text are nested at most where their values
are kept. -/
def depthLimit : Nat := 127

/-! ## Writing values -/

/-- A word as a value. -/
def word (n : UInt64) : Json := int n.toNat

/-- A count as a value. -/
def nat (n : Nat) : Json := int n

/-- The value of an optional part, where its absence is written as `null`. -/
def orNull {α : Type} (write : α → Json) : Option α → Json
  | none => null
  | some a => write a

/-- A member that is left out when its part is absent. -/
def whenSome {α : Type} (name : String) (write : α → Json) :
    Option α → List (String × Json)
  | none => []
  | some a => [(name, write a)]

end Json
end CouncilLedger
