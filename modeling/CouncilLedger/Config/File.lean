import CouncilLedger.Config.Toml
import CouncilLedger.Toml.Printer
import CouncilLedger.Toml.Reader

/-!
# Configuration files

A configuration as the text of a file. Only a configuration that passes its
check is taken from a file; any that TOML has numbers for is written.
-/

namespace CouncilLedger

/-- What is wrong with the text of a configuration. -/
inductive ConfigFileFault where
  /-- The text is not TOML, or not that of a configuration. -/
  | unreadable
  | invalid (fault : ConfigFault)
deriving DecidableEq

namespace Config

/-- The name of the file. -/
def fileName : String := "genesis.toml"

/-- The configuration that a text stands for. -/
def ofText (s : String) : Except ConfigFileFault Config :=
  match Toml.read s.toList >>= ofToml? with
  | none => .error .unreadable
  | some c => match c.check with
    | .error fault => .error (.invalid fault)
    | .ok () => .ok c

/-- The text of a configuration. -/
def text? (c : Config) : Option String :=
  c.toToml?.map fun ms => String.ofList (Toml.render ms)

end Config
end CouncilLedger
