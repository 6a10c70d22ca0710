import Packrat.Engine

/-!
# Log — what a run tells about itself

A log line has a level and a text. A run's lines are read off its trace, with a line in front and a
line behind; the events of the trace that no line is for are left out.
-/

namespace Packrat

namespace Log

/-- How much a line matters. -/
inductive Level where
  | debug
  | trace
deriving DecidableEq, Repr

/-- A line of a log. -/
structure Line where
  level : Level
  text : String
deriving DecidableEq, Repr

/-- Name of a level. -/
def Level.name : Level → String
  | debug => "DEBUG"
  | trace => "TRACE"

/-- Whether a log at one level shows lines of another. -/
def Level.shows : Level → Level → Bool
  | trace, _ => true
  | debug, line => line == debug

/-- The lines that a log at a level shows, as text. -/
def render (level : Level) (lines : List Line) : List String :=
  (lines.filter (level.shows ·.level)).map fun line => s!"{line.level.name} {line.text}"

end Log

open Log

variable {υ σ : Type}

/-- An entry and its kind. -/
def Grammar.label (g : Grammar υ σ) (index : Nat) : String :=
  let kind := (g.entries[index]?.map Entry.kind).getD "unknown"
  s!"#{index} ({kind})"

/-- The line for an event, if there is one. -/
def Event.line? (g : Grammar υ σ) : Event υ → Option Line
  | .evaluated site => some ⟨.trace, s!"eval {g.label site.node} at {site.start}"⟩
  | .recalled site _ => some ⟨.trace, s!"cache hit: {g.label site.node} at {site.start}"⟩
  | .leftRecursion slot site => some ⟨.trace, s!"left recursion through {slot} at {site.start}"⟩
  | .depthExceeded bound site => some ⟨.trace, s!"recursion limit {bound} hit at {site.start}"⟩
  | .rejected .action start message =>
    some ⟨.trace, s!"action rejected match at {start}: {message}"⟩
  | .rejected .predicate start message =>
    some ⟨.trace, s!"predicate rejected match at {start}: {message}"⟩
  | .settled .. | .entered .. | .called _ => none

/-- The lines of a run. -/
def Report.log (g : Grammar υ σ) (report : Report υ σ) : List Line :=
  let outcome := match report.result with
    | .ok _ => "success"
    | .error _ => "failure"
  let stats := report.stats
  [⟨.debug, s!"run start: root {g.label report.root.index}, {report.inputSize} input bytes"⟩] ++
    report.trace.toList.filterMap (Event.line? g) ++
    [⟨.debug, s!"run end: {outcome} after {stats.evaluations} evaluations " ++
      s!"({stats.cacheHits} cache hits)"⟩]

end Packrat
