import CouncilLedger.Rejection
import CouncilLedger.SortedMap

/-!
# Data directories

What a node keeps on disk: files by name. A file is replaced as a whole, by
writing another one first and giving it the name. An operation that fails may
leave traces, so every operation answers with the directory as it is after it.
-/

namespace CouncilLedger

/-- A directory with the path under which messages show it. -/
structure DataDir where
  path : String
  /-- The bytes of each file; `none` stands for a directory. -/
  items : SortedMap String (Option (List UInt8))
deriving DecidableEq

namespace DataDir

/-- The outcome of an operation, and the directory after it. -/
abbrev Outcome (α : Type) := Except StorageFault α × DataDir

/-- The empty directory of a path. -/
def empty (path : String) : DataDir := ⟨path, .empty⟩

/-- The path of a name. -/
def pathOf (d : DataDir) (name : String) : String := d.path ++ "/" ++ name

/-- Whether a name is there. -/
def contains (d : DataDir) (name : String) : Bool := d.items.contains name

/-- Whether a name is that of a directory. -/
def isDirectory (d : DataDir) (name : String) : Bool :=
  d.items.get? name == some none

/-- The bytes of a file. -/
def file? (d : DataDir) (name : String) : Option (List UInt8) :=
  (d.items.get? name).join

/-- Give a file its bytes. -/
def put (d : DataDir) (name : String) (bytes : List UInt8) : DataDir :=
  { d with items := d.items.insert name (some bytes) }

/-- Take a name away. -/
def remove (d : DataDir) (name : String) : DataDir :=
  { d with items := d.items.erase name }

/-- Make a directory. -/
def makeDirectory (d : DataDir) (name : String) : DataDir :=
  { d with items := d.items.insert name none }

/-- Replace a file by writing `temporary` first. Neither name may be that of a
directory. -/
def replace (d : DataDir) (name temporary : String) (bytes : List UInt8) :
    Outcome Unit :=
  if d.isDirectory temporary then (.error .isDirectory, d)
  else
    let written := d.put temporary bytes
    if written.isDirectory name then
      (.error (.replaceFailed (d.pathOf name)), written)
    else (.ok (), (written.remove temporary).put name bytes)

end DataDir
end CouncilLedger
