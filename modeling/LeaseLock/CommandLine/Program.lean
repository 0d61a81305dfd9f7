import LeaseLock.CommandLine.Command
import LeaseLock.Platform.Location
import LeaseLock.Service.Response
import LeaseLock.Store.Basic

/-!
# The program

How a command line is carried out: what the program prints and the code it ends with, or the options
and the store with which it serves. A server that is started checks its configuration first and
chooses its store then; the first fault ends it. Which databases can be used is not for the program
to say.
-/

namespace LeaseLock

/-- Why a server did not start. -/
inductive StartFault where
  /-- Its configuration is unusable. -/
  | config (fault : ConfigFault)
  /-- There is no storage of that name. -/
  | unknownStorage (name : String)
  /-- The database cannot be used. -/
  | database (location : String) (reason : String)
deriving DecidableEq, Repr

/-- The text of a failed start. -/
def StartFault.message : StartFault → String
  | config fault => fault.message
  | unknownStorage name =>
    "Unknown storage backend: '" ++ name ++ "'. Use 'memory' or 'sqlite:<path>'"
  | database location reason =>
    "Failed to open SQLite database at '" ++ location ++ "': " ++
      (StoreFault.unavailable reason).message

namespace ServerOptions

/-- The prefix of a name that stands for a database. -/
def databaseScheme : String := "sqlite:"

/-- The empty store of the given name. -/
def openStore (databases : Databases) (name : String) : Except StartFault Store :=
  if name = "memory" then .ok (.memory {})
  else if databaseScheme.toList.isPrefixOf name.toList then
    let location := String.ofList (name.toList.drop databaseScheme.length)
    match databases.fault? location with
    | some reason => .error (.database location reason)
    | none => .ok (.table {})
  else .error (.unknownStorage name)

/-- The store with which a server starts. -/
def start (o : ServerOptions) (databases : Databases := .usual) : Except StartFault Store := do
  o.config.check.mapError .config
  openStore databases o.storage

/-- Where the server listens. -/
def address (o : ServerOptions) : String := o.host ++ ":" ++ toString o.port

end ServerOptions

/-- The text of the version. -/
def versionText : String :=
  "lockd " ++ Response.version ++ "\nLease-based distributed lock coordinator\n"

/-- The text that helps with the usage. -/
def helpText : String :=
  let settings := Setting.all.map fun x ↦
    "      --" ++ x.long ++ (if x.isSwitch then "" else " <VALUE>") ++ "\n          " ++ x.help ++
      " [env: " ++ x.environmentName ++ "]\n"
  "lockd: lease-based distributed lock coordinator\n\n" ++
    "Usage: lockd <COMMAND>\n\n" ++
    "Commands:\n" ++
    "  serve    Start the lockd HTTP server\n" ++
    "  version  Print version information\n" ++
    "  help     Print this message\n\n" ++
    "Options of serve:\n" ++ String.join settings

/-- The text for words that are no command. -/
def Halt.message : Halt → String
  | help | noCommand => helpText
  | version => "lockd " ++ Response.version ++ "\n"
  | unknownCommand word => "error: unrecognized subcommand '" ++ word ++ "'\n"
  | unknownArgument word => "error: unexpected argument '" ++ word ++ "' found\n"
  | valueMissing setting => "error: a value is required for '--" ++ setting.long ++ "'\n"
  | badValue setting value _ =>
    "error: invalid value '" ++ value ++ "' for '--" ++ setting.long ++ "'\n"
  | surplusValue word => "error: unexpected value in '" ++ word ++ "'\n"
  | repeated setting =>
    "error: the argument '--" ++ setting.long ++ "' cannot be used multiple times\n"

/-- What becomes of the program. -/
inductive Conduct where
  /-- It prints a text and ends well. -/
  | done (text : String)
  /-- It prints a text about what failed and ends with a code. -/
  | failed (code : UInt8) (text : String)
  /-- It serves from a store. -/
  | serving (options : ServerOptions) (store : Store)

/-- What becomes of a program whose words are no command. -/
def Halt.conduct (h : Halt) : Conduct :=
  match h with
  | help | version => .done h.message
  | _ => .failed 2 h.message

/-- Carry out a command. -/
def Command.conduct (databases : Databases) : Command → Conduct
  | serve options =>
    match options.start databases with
    | .ok store => .serving options store
    | .error fault => .failed 1 (fault.message ++ "\n")
  | version => .done versionText

/-- Carry out a command line. -/
def conduct (environment : Dict String) (words : List String) (databases : Databases := .usual) :
    Conduct :=
  match Command.parse environment words with
  | .ok command => command.conduct databases
  | .error halt => halt.conduct

end LeaseLock
