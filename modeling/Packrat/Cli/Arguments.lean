/-!
# Cli/Arguments — the command line

The program has one command, which reads a DNS message. Options stand anywhere behind the command,
each at most once; a double dash ends them. Anything else is a usage error.
-/

namespace Packrat.Cli

/-- Where the program reads bytes from. -/
inductive Source where
  | stdin
  | file (path : String)
deriving DecidableEq, Repr

/-- What the `dns` command is asked to do. -/
structure DnsCommand where
  source : Source
  /-- Whether the input is a hexadecimal dump. -/
  hex : Bool
  /-- Whether the message is printed as JSON. -/
  json : Bool
  /-- The file that holds settings. -/
  config : Option String
deriving DecidableEq, Repr

/-- What the program is asked to do. -/
inductive Request where
  | version
  | help
  | dns (command : DnsCommand)
deriving DecidableEq, Repr

/-- The options and arguments of the `dns` command that were seen so far. -/
structure Seen where
  file : Option String := none
  hex : Bool := false
  json : Bool := false
  config : Option String := none
deriving DecidableEq, Repr

/-- Takes an argument that is no option: the file, once, and not an empty name. -/
def Seen.addFile? (seen : Seen) (path : String) : Option Seen :=
  if path.isEmpty ∨ seen.file.isSome then none else some { seen with file := some path }

/-- Takes the name of a settings file, once, and not an empty one. -/
def Seen.addConfig? (seen : Seen) (path : String) : Option Seen :=
  if path.isEmpty ∨ seen.config.isSome then none else some { seen with config := some path }

/-- Whether an argument looks like an option; a single dash does not. -/
def isOption (arg : String) : Bool := arg.startsWith "-" && arg != "-"

/-- The name of an option that comes with its value, and the value. -/
def configValue? (arg : String) : Option String :=
  if arg.startsWith "--config=" then some (arg.drop "--config=".length).toString else none

/-- The command, once the file is known. -/
def Seen.request? (seen : Seen) : Option Request :=
  seen.file.map fun file => .dns {
    source := if file = "-" then .stdin else .file file
    hex := seen.hex
    json := seen.json
    config := seen.config }

/-- Reads the arguments of the `dns` command. -/
def parseDns? (seen : Seen) : List String → Option Request
  | [] => seen.request?
  | "--" :: rest => do (← rest.foldlM Seen.addFile? seen).request?
  | "--hex" :: rest => if seen.hex then none else parseDns? { seen with hex := true } rest
  | "--json" :: rest => if seen.json then none else parseDns? { seen with json := true } rest
  | "--config" :: path :: rest =>
    if isOption path then none
    else match seen.addConfig? path with
      | some seen => parseDns? seen rest
      | none => none
  | arg :: rest =>
    if arg = "--help" ∨ arg.startsWith "-h" then some .help
    else match configValue? arg with
      | some path =>
        match seen.addConfig? path with
        | some seen => parseDns? seen rest
        | none => none
      | none =>
        if isOption arg then none
        else match seen.addFile? arg with
          | some seen => parseDns? seen rest
          | none => none

/-- Reads a command line; `none` is a usage error. -/
def parse? : List String → Option Request
  | "dns" :: rest => parseDns? {} rest
  | ["help"] | ["help", "dns"] | ["help", "help"] => some .help
  | arg :: _ =>
    if arg = "--version" ∨ arg.startsWith "-V" then some .version
    else if arg = "--help" ∨ arg.startsWith "-h" then some .help
    else none
  | [] => none

end Packrat.Cli
