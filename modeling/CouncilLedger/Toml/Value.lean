/-!
# TOML values

What the text of a configuration file says. Numerals with a fraction and times
are kept as they are spelt, because no setting is one.
-/

namespace CouncilLedger

/-- A TOML value. -/
inductive Toml where
  | str (s : String)
  | int (n : Int)
  | float (spelt : String)
  | bool (b : Bool)
  | time (spelt : String)
  | arr (items : List Toml)
  | table (members : List (String × Toml))
deriving Inhabited

namespace Toml

/-- The smallest and the largest whole number. -/
def isInteger (n : Int) : Prop :=
  -0x8000000000000000 ≤ n ∧ n < 0x8000000000000000

instance : DecidablePred isInteger := fun n =>
  inferInstanceAs (Decidable (-0x8000000000000000 ≤ n ∧ n < 0x8000000000000000))

/-! ## Parts -/

/-- A text. -/
def text? : Toml → Option String
  | str s => some s
  | _ => none

/-- A whole number that fits into 64 bits without sign. -/
def word? : Toml → Option UInt64
  | int (.ofNat n) => if n < UInt64.size then some (UInt64.ofNat n) else none
  | _ => none

/-- A whole number that fits into eight bits without sign. -/
def byte? : Toml → Option UInt8
  | int (.ofNat n) => if n < UInt8.size then some (UInt8.ofNat n) else none
  | _ => none

/-- The items of an array, each read by `read`. -/
def list? {α : Type} (read : Toml → Option α) : Toml → Option (List α)
  | arr items => items.mapM read
  | _ => none

/-- The members of a section with parts named `names`: those of a table, or the
items of an array under these names in order. A time has none of them. -/
def section? (names : List String) : Toml → Option (List (String × Toml))
  | table members => some members
  | arr items => some (names.zip items)
  | time _ => some []
  | _ => none

/-- A part of a section that has to be given. -/
def required {α : Type} (members : List (String × Toml)) (name : String)
    (read : Toml → Option α) : Option α :=
  members.lookup name >>= read

/-- A part of a section that is `d` when it is absent. -/
def withDefault {α : Type} (members : List (String × Toml)) (name : String)
    (d : α) (read : Toml → Option α) : Option α :=
  match members.lookup name with
  | none => some d
  | some v => read v

end Toml
end CouncilLedger
