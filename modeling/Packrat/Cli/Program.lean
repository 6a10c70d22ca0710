import Packrat.Cli.Arguments
import Packrat.Dns.Reader
import Packrat.Dns.Form
import Packrat.Dns.Summary
import Packrat.Json.Form
import Packrat.Hex.Dump

/-!
# Cli/Program — what the program does

A run of the program takes its arguments, its environment and a way to read sources, and gives an
exit status, the text for standard output and, if it fails, a diagnostic. Reading is a parameter,
in any monad, so that the program itself stays a function. Settings are read before the input.
-/

namespace Packrat.Cli

/-- Why the program fails. -/
inductive Error where
  /-- A source cannot be read. -/
  | io (path : String)
  | hex (e : Hex.Dump.Error)
  | config (e : ConfigError)
  | grammar (e : GrammarError)
  | dns (e : Dns.Error)
deriving DecidableEq, Repr

/-- What is said about a failure. -/
structure Diagnostic where
  code : String
  message : String
  help? : Option String
deriving DecidableEq, Repr

/-- The diagnostic for an error. -/
def Error.diagnostic : Error → Diagnostic
  | io path => ⟨"bitpeg::cli::io", s!"cannot read {path}", none⟩
  | hex e => ⟨Hex.Dump.Error.code, e.message, some Hex.Dump.Error.help⟩
  | config e => ⟨e.code, e.message, none⟩
  | grammar e => ⟨e.code, e.message, e.help?⟩
  | dns e => ⟨e.code, e.message, e.help?⟩

/-- What a run of the program comes to. -/
structure Exit where
  status : Nat
  stdout : String := ""
  diagnostic? : Option Diagnostic := none
deriving DecidableEq, Repr

/-- The environment that decides on colours. -/
structure Environment where
  /-- The kind of terminal. -/
  term : Option String
  /-- Whether colours are declined. -/
  noColor : Bool
deriving DecidableEq, Repr

/-- Whether output is coloured: for a terminal that is not a dumb one, unless declined. -/
def Environment.coloured (env : Environment) : Bool :=
  env.term.isSome && env.term != some "dumb" && !env.noColor

/-- What `--version` prints. -/
def versionText : String := "bitpeg 0.1.0\n"

/-- What `--help` prints. -/
def helpText : String := "Usage: bitpeg dns [--hex] [--json] [--config <FILE>] <FILE>\n"

section Reading

variable {m : Type → Type} [Monad m]

/-- The bytes of a source, or the error for one that cannot be read. -/
def load (read : Source → m (Option (Array UInt8))) (source : Source) :
    ExceptT Error m (Array UInt8) := do
  match ← read source with
  | some bytes => return bytes
  | none => throw <| .io <| match source with
    | .stdin => "-"
    | .file path => path

/-- The settings in a file, or the default ones. -/
def loadConfig (read : Source → m (Option (Array UInt8))) :
    Option String → ExceptT Error m Config
  | none => return {}
  | some path => do
    match Utf8.decode? (← load read (.file path)).toList with
    | none => throw (.io path)
    | some text => match Config.ofText text with
      | .ok config => return config
      | .error e => throw (.config e)

/-- The message that the `dns` command reads. -/
def readMessage (read : Source → m (Option (Array UInt8))) (command : DnsCommand) :
    ExceptT Error m Dns.Message := do
  let config ← loadConfig read command.config
  let raw ← load read command.source
  let packet ← if command.hex then
      match Hex.Dump.decode (Utf8.decodeLossy raw.toList) with
      | .ok bytes => pure bytes.toArray
      | .error e => throw (.hex e)
    else pure raw
  match Dns.Reader.make with
  | .error e => throw (.grammar e)
  | .ok reader => match (reader.read packet config).outcome with
    | .ok message => return message
    | .error e => throw (.dns e)

/-- Runs the program. -/
def run (read : Source → m (Option (Array UInt8))) (env : Environment) (args : List String) :
    m Exit := do
  match parse? args with
  | none => return { status := 2 }
  | some .version => return { status := 0, stdout := versionText }
  | some .help => return { status := 0, stdout := helpText }
  | some (.dns command) =>
    match ← (readMessage read command).run with
    | .ok message => return {
        status := 0
        stdout := if command.json then message.toJsonText
          else Text.renderSpans env.coloured message.summary }
    | .error e => return { status := 1, diagnostic? := some e.diagnostic }

end Reading

end Packrat.Cli
