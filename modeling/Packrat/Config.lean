import Packrat.Cursor

/-!
# Config — settings of a run

A run is bounded in how deep slots may nest, and it may remember the outcome of every combinator at
every place or work it out anew each time.
-/

namespace Packrat

/-- The settings of a run. -/
structure Config where
  /-- How many slots may be entered inside one another. -/
  maxRecursionDepth : Nat := 1000
  /-- Whether outcomes are remembered. -/
  memoize : Bool := true
deriving DecidableEq, Repr, Inhabited

/-- Why settings cannot be used. -/
inductive ConfigError where
  /-- The text is not the JSON form of settings. -/
  | json
  /-- The value of a setting is out of range. -/
  | invalidValue (field reason : String)
deriving DecidableEq, Repr

namespace ConfigError

/-- The error in words. -/
def message : ConfigError → String
  | json => "invalid engine configuration"
  | invalidValue field reason => s!"invalid value for `{field}`: {reason}"

/-- The error's code. -/
def code : ConfigError → String
  | json => "bitpeg::config::json"
  | invalidValue .. => "bitpeg::config::value"

end ConfigError

/-- The settings, if a run can use them: at least one slot must be allowed. -/
def Config.validate (config : Config) : Except ConfigError Config :=
  if config.maxRecursionDepth = 0 then
    .error (.invalidValue "max_recursion_depth" "must be at least 1")
  else .ok config

end Packrat
