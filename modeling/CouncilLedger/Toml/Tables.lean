import CouncilLedger.Toml.Value

/-!
# Building tables

A TOML text states its tables piecemeal: headers open tables, dotted keys reach
into them, and what has been defined once cannot be defined again. How a table
came about decides what may still be added to it:

* a table with a header of its own takes no more dotted keys from outside;
* a table that is only the way to another header may still get its own;
* a table made by dotted keys takes more dotted keys, and no header.
-/

namespace CouncilLedger.Toml

/-- How a table came about. -/
inductive Origin where
  /-- It has a header of its own. -/
  | header
  /-- It is on the way to the table of a header. -/
  | implied
  /-- It is on the way of a dotted key. -/
  | dotted
deriving DecidableEq, Repr

/-- What stands under a key while a text is read. -/
inductive Entry where
  | value (v : Toml)
  | table (origin : Origin) (members : List (String × Entry))
  /-- An array of tables, the latest one first. -/
  | tables (latestFirst : List (List (String × Entry)))
deriving Inhabited

/-- The members of a table while it is read. -/
abbrev Members := List (String × Entry)

namespace Members

/-- Put an entry under a key, in place of an earlier one. -/
def put (key : String) (e : Entry) : Members → Members
  | [] => [(key, e)]
  | (k, old) :: rest =>
    if k = key then (k, e) :: rest else (k, old) :: put key e rest

/-- Change the table at the end of a path by `f`, which is told how that table
came about. Tables on the way that are missing are made. A path of dotted keys
does not lead into tables with headers. -/
def change (dotted : Bool) (f : Origin → Members → Option Members) :
    Origin → List String → Members → Option Members
  | origin, [], ms => f origin ms
  | _, key :: path, ms =>
    match ms.lookup key with
    | none => do
      let origin := if dotted then .dotted else .implied
      return put key (.table origin (← change dotted f origin path [])) ms
    | some (.table origin child) =>
      if dotted ∧ origin = .header then none
      else do
        return put key (.table origin (← change dotted f origin path child)) ms
    | some (.tables (latest :: earlier)) => do
      return put key
        (.tables ((← change dotted f .header path latest) :: earlier)) ms
    | some _ => none

/-- Open the table `key` by its header. -/
def openTable (key : String) (_ : Origin) (ms : Members) : Option Members :=
  match ms.lookup key with
  | none => some (put key (.table .header []) ms)
  | some (.table .implied child) => some (put key (.table .header child) ms)
  | some _ => none

/-- Open one more table of the array of tables `key` by its header. -/
def openItem (key : String) (_ : Origin) (ms : Members) : Option Members :=
  match ms.lookup key with
  | none => some (put key (.tables [[]]) ms)
  | some (.tables items) => some (put key (.tables ([] :: items)) ms)
  | some _ => none

/-- Give `key` a value, for the first time. Behind other keys it goes into a
table made by dotted keys only. -/
def addValue (behindKeys : Bool) (key : String) (v : Toml) (origin : Origin)
    (ms : Members) : Option Members :=
  if behindKeys ∧ origin ≠ .dotted then none
  else if (ms.lookup key).isSome then none
  else some (put key (.value v) ms)

/-- Give a dotted key a value. -/
def addDotted (path : List String) (key : String) (v : Toml) (origin : Origin)
    (ms : Members) : Option Members :=
  change true (addValue (!path.isEmpty) key v) origin path ms

end Members

/-! ## Finished tables -/

mutual
/-- The value that an entry has come to. -/
def Entry.toToml : Entry → Toml
  | .value v => v
  | .table _ members => .table (membersToToml members)
  | .tables latestFirst => .arr (tablesToToml latestFirst).reverse

/-- The members that some entries have come to. -/
def membersToToml : List (String × Entry) → List (String × Toml)
  | [] => []
  | (key, e) :: rest => (key, e.toToml) :: membersToToml rest

/-- The tables that an array of tables has come to, the latest one first. -/
def tablesToToml : List (List (String × Entry)) → List Toml
  | [] => []
  | t :: rest => .table (membersToToml t) :: tablesToToml rest
end

end CouncilLedger.Toml
