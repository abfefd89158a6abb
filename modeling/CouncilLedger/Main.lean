import CouncilLedger.Command
import CouncilLedger.Config.File
import CouncilLedger.Http.Api
import CouncilLedger.Node.Recovery
import Std.Http

/-!
# The program

Everything that touches the world: the clock, the disk and the network. Each
request runs on the node by itself, and what it changes is on disk before it is
answered.
-/

namespace CouncilLedger.Program

/-- The time in seconds. -/
def now : IO UInt64 := do
  return UInt64.ofNat
    (← Std.Time.Timestamp.now).toSecondsSinceUnixEpoch.val.toNat

/-! ## Files -/

/-- What a path holds, if anything: the bytes of a file, or `none` for a
directory. -/
def readItem? (path : String) : IO (Option (Option ByteArray)) := do
  match ← EIO.toBaseIO (IO.FS.readBinFile path) with
  | .ok bytes => return some (some bytes)
  | .error (.inappropriateType ..) => return some none
  | .error (.noFileOrDirectory ..) => return none
  | .error e => throw e

/-- Write a file in place of the old one, which stays whole until then. -/
def writeFile (path : String) (bytes : ByteArray) : IO Unit := do
  let part := path ++ ".part"
  IO.FS.withFile part .write fun handle => do
    handle.write bytes
    handle.flush
  IO.FS.rename part path

/-- The names that a node uses in its directory. -/
def names : List String :=
  [BlockLog.name, BlockLog.temporary, Checkpoint.name, Checkpoint.temporary]

/-- What a directory holds under these names. -/
def readDirectory (path : String) : IO DataDir :=
  names.foldlM (fun d name => do
    match ← readItem? (d.pathOf name) with
    | some (some bytes) => return d.put name bytes.toList
    | some none => return d.makeDirectory name
    | none => return d) (.empty path)

/-- Bring a name of a directory from one state to another. -/
def writeName (before after : DataDir) (name : String) : IO Unit := do
  let file := after.pathOf name
  match before.file? name, after.file? name with
  | some _, none => IO.FS.removeFile file
  | old, some new => if old != some new then writeFile file ⟨new.toArray⟩
  | none, none => return ()

/-- Bring a directory from one state to another. The log counts; what fails
besides is passed over. -/
def writeDirectory (before after : DataDir) : IO Unit := do
  writeName before after BlockLog.name
  for name in names do
    if name != BlockLog.name then
      let _ ← EIO.toBaseIO (writeName before after name)

/-! ## Configurations -/

/-- The directory of a node if none is named. -/
def usualDirectory : IO String := do
  return (← IO.getEnv "HOME").getD "." ++ "/.daochain"

/-- The text of a file, if there is one and its bytes are text. -/
def readText? (path : String) : IO (Option String) := do
  match ← EIO.toBaseIO (readItem? path) with
  | .ok (some (some bytes)) => return String.fromUTF8? bytes
  | _ => return none

/-- The configuration in a file. -/
def readConfig (path : String) : IO Config := do
  match (← readText? path).map Config.ofText with
  | none => throw (.userError ("failed to read config " ++ Text.quoted path))
  | some (.error .unreadable) =>
    throw (.userError ("failed to parse config " ++ Text.quoted path))
  | some (.error (.invalid fault)) => throw (.userError fault.message)
  | some (.ok c) => return c

/-- The configuration of a node. -/
def configOf (dir : String) : Option String → IO Config
  | some path => readConfig path
  | none => do
    let path := dir ++ "/" ++ Config.fileName
    if (← readItem? path).isSome then readConfig path else return {}

/-! ## Nodes -/

/-- Start the node of a directory. -/
def startNode (dir : String) (config : Config) : IO Node := do
  IO.FS.createDirAll dir
  let before ← readDirectory dir
  let (outcome, after) := Node.start config before ⟨← now, true⟩
  writeDirectory before after
  match outcome with
  | .ok n => return n
  | .error fault => throw (.userError fault.message)

/-- A node that serves requests. -/
structure Service where
  node : Std.Mutex Node
  defaultSender : Option String

/-- Write what a step has changed on disk. -/
def keep (before after : Node) : IO Unit :=
  match before.dir, after.dir with
  | some old, some new => writeDirectory old new
  | _, _ => return ()

/-- Take a step with the node. Where the disk does not take the log, the step is
taken without it. -/
def Service.step {α : Type} (s : Service) (f : Node → Moment → α × Node) :
    IO α :=
  s.node.atomically do
    let before ← get
    let clock ← now
    let (answer, after) := f before ⟨clock, true⟩
    match ← (EIO.toBaseIO (keep before after) : BaseIO _) with
    | .ok () =>
      set after
      return answer
    | .error _ =>
      let (answer, after) := f before ⟨clock, false⟩
      set after
      return answer

/-! ## Serving -/

/-- A request as it comes from the network. -/
def requestOf (head : Std.Http.Request.Head) (body : ByteArray) :
    Http.Request :=
  { method := toString head.method
    target := toString head.uri
    contentType := (head.headers.get? (.mk "content-type")).map (·.value)
    body := ⟨body.toList⟩ }

instance : Std.Http.Server.Handler Service where
  onRequest service request := do
    let body : ByteArray ← request.body.readAll
    let response ← service.step fun n m =>
      Http.respond n m service.defaultSender (requestOf request.line body)
    let status :=
      (Std.Http.Status.ofCode none response.status.code.toUInt16).getD .ok
    let builder := (Std.Http.Response.withStatus status).header!
      "Access-Control-Allow-Origin" "*"
    match response.body with
    | some (.value v) => builder.json (String.ofList v.render)
    | some (.text s) => builder.text s
    | none => builder.text ""

/-- Close the proposals that are due, again and again. -/
partial def refresh (service : Service)
  (seconds : UInt64) : Std.Async.Async Unit := do
  let _ ← service.step fun n m => n.tick m
  Std.Async.sleep (.ofNat (1000 * max 1 seconds.toNat))
  refresh service seconds

/-- The address that an endpoint names. -/
def addressOf (endpoint : String) : IO Std.Net.SocketAddress := do
  let address? : Option Std.Net.SocketAddress := do
    let (host, number) ← Command.endpoint? endpoint
    match Std.Net.IPv4Addr.ofString host with
    | some addr => some (.v4 ⟨addr, number⟩)
    | none => (Std.Net.IPv6Addr.ofString host).map fun addr => .v6 ⟨addr, number⟩
  match address? with
  | some address => return address
  | none =>
    throw (IO.userError ("invalid HTTP bind address " ++ Text.quoted endpoint ++
      " (use format: 127.0.0.1:9000)"))

/-- Serve requests until the user interrupts. -/
def serve (service : Service) (address : Std.Net.SocketAddress)
    (seconds : UInt64) : Std.Async.Async Unit := do
  let server ← Std.Http.Server.serve address service
  Std.Async.background (refresh service seconds)
  let interrupt ← Std.Async.Signal.Waiter.mk .sigint false
  let _ ← Std.Async.await (← interrupt.wait)
  server.shutdown

/-! ## Commands -/

/-- Carry out a command. -/
def run : Command → IO Unit
  | .help => IO.println Command.usage
  | .init dir replaces => do
    let dir ← dir.getDM usualDirectory
    IO.FS.createDirAll dir
    let path := dir ++ "/" ++ Config.fileName
    if (← readItem? path).isSome && !replaces then
      throw (.userError
        (Text.quoted path ++ " already exists (use --force to overwrite)"))
    let default : Config := {}
    IO.FS.writeFile path (default.text?.getD "")
  | .start dir config endpoint seconds => do
    let dir ← dir.getDM usualDirectory
    let config ← configOf dir config
    let address ← addressOf endpoint
    let service : Service :=
      { node := ← Std.Mutex.new (← startNode dir config)
        defaultSender := config.chain.defaultSender }
    (serve service address seconds).block
    match ← service.step fun n _ => n.saveCheckpoint with
    | .ok () => return ()
    | .error fault => throw (.userError fault.message)
  | .inspect dir config => do
    let dir ← dir.getDM usualDirectory
    if (← readItem? (dir ++ "/" ++ BlockLog.name)).isNone then
      throw (.userError ("no chain found in " ++ Text.quoted dir))
    let config ← configOf dir config
    let n ← startNode dir config
    IO.println n.chain.summary.toJson.indented

end CouncilLedger.Program

def main (args : List String) : IO UInt32 := do
  match CouncilLedger.Command.ofArguments args with
  | .error fault =>
    IO.eprintln
      ("error: " ++ fault.message ++ "\n\n" ++ CouncilLedger.Command.usage)
    return 2
  | .ok command =>
    try
      CouncilLedger.Program.run command
      return 0
    catch e =>
      IO.eprintln ("Error: " ++ toString e)
      return 1
