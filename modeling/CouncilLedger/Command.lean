import CouncilLedger.BlockKey
import CouncilLedger.Text.Quoted

/-!
# The command line

What a user asks for: to write a configuration, to run a node, or to look at a
chain. An option is written with its name or with its letter; its value is the
next word, or stands behind an equals sign.
-/

namespace CouncilLedger

/-- What a user asks for. A directory or a configuration file that is not named
is the usual one. -/
inductive Command where
  /-- Write a configuration into a directory, also in place of another one. -/
  | init (dir : Option String) (replaces : Bool)
  /-- Run a node, closing the proposals that are due at every interval. -/
  | start (dir config : Option String) (endpoint : String) (seconds : UInt64)
  /-- Show the summary of a chain. -/
  | inspect (dir config : Option String)
  | help
deriving DecidableEq, Repr

/-- Why a command line is refused. -/
inductive CommandFault where
  | noCommand
  | unknownCommand (word : String)
  | unknownOption (word : String)
  | repeatedOption (name : String)
  | noValue (name : String)
  | strayValue (name : String)
  | badNumber (name value : String)
deriving DecidableEq, Repr

/-- The wording of a fault. -/
def CommandFault.message : CommandFault → String
  | noCommand => "a command is needed"
  | unknownCommand word => "unrecognized subcommand " ++ Text.quoted word
  | unknownOption word => "unexpected argument " ++ Text.quoted word
  | repeatedOption name =>
    "the argument --" ++ name ++ " cannot be used multiple times"
  | noValue name =>
    "a value is required for --" ++ name ++ " but none was supplied"
  | strayValue name => "the argument --" ++ name ++ " takes no value"
  | badNumber name value =>
    "invalid value " ++ Text.quoted value ++ " for --" ++ name

namespace Command

/-! ## Options -/

/-- An option that a command knows. -/
structure Known where
  name : String
  letter : Option Char
  takesValue : Bool := true

/-- A word cut at its first equals sign. -/
def splitValue (word : List Char) : String × Option String :=
  (String.ofList (word.takeWhile (· != '=')),
    match word.dropWhile (· != '=') with
    | [] => none
    | _ :: value => some (String.ofList value))

/-- The option that a word names, and its value if the word holds it. -/
def find? (known : List Known) (word : String) :
    Option (Known × Option String) :=
  match word.toList with
  | '-' :: '-' :: rest =>
    let (name, value) := splitValue rest
    (known.find? (·.name == name)).map fun k => (k, value)
  | '-' :: letter :: rest =>
    (known.find? (·.letter == some letter)).map fun k =>
      (k, match rest with
        | [] => none
        | '=' :: value => some (String.ofList value)
        | value => some (String.ofList value))
  | _ => none

/-- The values of the options that follow a command. One that takes no value has
the empty one. -/
def options (known : List Known) :
    List String → Except CommandFault (List (String × String))
  | [] => .ok []
  | word :: rest =>
    match find? known word with
    | none => .error (.unknownOption word)
    | some (k, value) =>
      if k.takesValue then
        match value, rest with
        | some value, rest => (options known rest).map ((k.name, value) :: ·)
        | none, value :: rest => (options known rest).map ((k.name, value) :: ·)
        | none, [] => .error (.noValue k.name)
      else if value.isSome then .error (.strayValue k.name)
      else (options known rest).map ((k.name, "") :: ·)

/-- The first name that is there again. -/
def repeated? : List (String × String) → Option String
  | [] => none
  | (name, _) :: rest =>
    if (rest.lookup name).isSome then some name else repeated? rest

/-- The options that follow a command, each at most once. -/
def distinctOptions (known : List Known) (words : List String) :
    Except CommandFault (List (String × String)) := do
  let given ← options known words
  match repeated? given with
  | none => return given
  | some name => throw (.repeatedOption name)

/-- The number that an option gives. -/
def word (name value : String) : Except CommandFault UInt64 :=
  match BlockKey.parse value with
  | .ok (.byHeight n) => .ok n
  | _ => .error (.badNumber name value)

/-! ## Commands -/

/-- The option for the directory of a node. -/
def dirOption : Known := ⟨"data-dir", some 'd', true⟩

/-- The option for the configuration of a node. -/
def configOption : Known := ⟨"config", some 'c', true⟩

/-- The command of a command line. -/
def ofArguments : List String → Except CommandFault Command
  | [] => .error .noCommand
  | "init" :: rest => do
    let given ← distinctOptions [dirOption, ⟨"force", none, false⟩] rest
    return .init (given.lookup "data-dir") (given.lookup "force").isSome
  | "start" :: rest => do
    let given ← distinctOptions [dirOption, configOption,
        ⟨"http-bind", none, true⟩, ⟨"tick-secs", none, true⟩] rest
    let seconds ← word "tick-secs" ((given.lookup "tick-secs").getD "5")
    return .start (given.lookup "data-dir") (given.lookup "config")
      ((given.lookup "http-bind").getD "127.0.0.1:9000") seconds
  | "inspect" :: rest => do
    let given ← distinctOptions [dirOption, configOption] rest
    return .inspect (given.lookup "data-dir") (given.lookup "config")
  | "help" :: _ => .ok .help
  | "-h" :: _ => .ok .help
  | "--help" :: _ => .ok .help
  | name :: _ => .error (.unknownCommand name)

/-- How the commands are written. -/
def usage : String :=
  "Commands:\n" ++
  "  init     Write a default genesis.toml into a data directory\n" ++
  "  start    Open (or create) the chain and serve the HTTP API\n" ++
  "  inspect  Print the chain summary of a data directory\n" ++
  "  help     Print this message\n" ++
  "\n" ++
  "Options:\n" ++
  "  -d, --data-dir DIR    Directory of the node\n" ++
  "  -c, --config FILE     Config file (start, inspect)\n" ++
  "      --force           Overwrite an existing genesis.toml (init)\n" ++
  "      --http-bind ADDR  HTTP bind address, 127.0.0.1:9000 unless given " ++
  "(start)\n" ++
  "      --tick-secs SECS  Seconds between governance refreshes, 5 unless " ++
  "given (start)"

/-- The host that an endpoint names, and the number behind its last colon. A
host in brackets is given without them. -/
def endpoint? (s : String) : Option (String × UInt16) :=
  let reversed := s.toList.reverse
  let digits := (reversed.takeWhile (· != ':')).reverse
  match reversed.dropWhile (· != ':') with
  | [] => none
  | _ :: host =>
    if digits.isEmpty ∨ !digits.all Char.isDigit ∨
      UInt16.size ≤ Text.decimal digits then none
    else
      let host := match host with
        | ']' :: inner =>
          if inner.getLast? == some '[' then inner.dropLast else host
        | _ => host
      some (String.ofList host.reverse, UInt16.ofNat (Text.decimal digits))

end Command
end CouncilLedger
