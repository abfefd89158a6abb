import CouncilLedger.Block.Json
import CouncilLedger.DataDir
import CouncilLedger.Encoding
import CouncilLedger.Json.Printer
import CouncilLedger.Json.Reader
import CouncilLedger.Text.Classes

/-!
# The block log

All blocks of a chain in order, each as its compact text on a line of its own.
The log only grows, and a line that was not written in whole does not last: it
is cut off before the next block is appended and when the log is read.
-/

namespace CouncilLedger.BlockLog

/-- The name of the log. -/
def name : String := "blocks.jsonl"

/-- The name under which a new log is written before it takes the place of the
old one. -/
def temporary : String := "blocks.tmp"

/-! ## Lines -/

/-- The line of a block. -/
def line (b : Block) : List Char := b.toJson.render ++ ['\n']

/-- The bytes of the lines of some blocks. -/
def bytesOf (blocks : List Block) : List UInt8 :=
  Text.encode (blocks.flatMap line)

/-- The bytes up to the last line end. -/
def wholeLines (bytes : List UInt8) : List UInt8 :=
  (bytes.reverse.dropWhile (· != 10)).reverse

/-- The lines of a text with their ends. -/
def lines : List Char → List (List Char)
  | [] => []
  | c :: rest =>
    if c = '\n' then [c] :: lines rest
    else match lines rest with
      | [] => [[c]]
      | l :: more => (c :: l) :: more

/-- The block of a line. -/
def block? (l : List Char) : Option Block := Json.readAll l >>= Block.ofJson?

/-! ## Appending -/

/-- Append a block behind the last whole line. Where the disk does not take the
line, none of it stays. -/
def append (d : DataDir) (diskTakes : Bool) (b : Block) :
    DataDir.Outcome Unit :=
  if d.isDirectory name then (.error .isDirectory, d)
  else
    let kept := wholeLines ((d.file? name).getD [])
    if diskTakes then (.ok (), d.put name (kept ++ Text.encode (line b)))
    else (.error .appendFailed, d.put name kept)

/-- Make some blocks the whole log. -/
def overwrite (d : DataDir) (blocks : List Block) : DataDir.Outcome Unit :=
  d.replace name temporary (bytesOf blocks)

/-! ## Reading -/

/-- What was found in a log. -/
structure Findings where
  blocks : List Block
  /-- The text up to the first line that is no block. -/
  clean : List Char
  /-- Whether that is all of the log, and its last block has a line end. -/
  isWhole : Bool

/-- What is found in some lines. Blank lines are passed over, and what follows a
line that is no block counts for nothing. -/
def findings : List (List Char) → Findings
  | [] => ⟨[], [], true⟩
  | l :: rest =>
    if Text.isBlank l then
      let f := findings rest
      { f with clean := l ++ f.clean }
    else match block? l with
      | none => ⟨[], [], false⟩
      | some b =>
        let f := findings rest
        ⟨b :: f.blocks, l ++ f.clean, f.isWhole && l.getLast? == some '\n'⟩

/-- A text with a line end behind it, unless it is empty or has one. -/
def ended (s : List Char) : List Char :=
  if s.isEmpty || s.getLast? == some '\n' then s else s ++ ['\n']

/-- Read all blocks of the log, and cut off what is damaged. -/
def read (d : DataDir) : DataDir.Outcome (List Block) :=
  if !d.contains name then (.ok [], d)
  else match d.file? name >>= Text.decode? with
    | none => (.error (.readFailed (d.pathOf name)), d)
    | some s =>
      let f := findings (lines s)
      if f.isWhole then (.ok f.blocks, d)
      else
        let (outcome, repaired) :=
          d.replace name temporary (Text.encode (ended f.clean))
        (outcome.map fun _ => f.blocks, repaired)

end CouncilLedger.BlockLog
