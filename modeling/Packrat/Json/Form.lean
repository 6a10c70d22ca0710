import Packrat.Json.Schema
import Packrat.Outcome
import Packrat.Config

/-!
# Json/Form — the documents of the library's own data

The JSON forms of cursors, integers, slots and kinds of failure, with their readers, and the
reader of settings. Numbers must fit the words that they stand for; names that are no fields are
ignored, except in settings, where a missing field takes its default.
-/

namespace Packrat

namespace Cursor

/-- The form of a cursor. -/
def toJson (c : Cursor) : Json := .record [("byte", .nat c.byte), ("bit", .nat c.bit)]

/-- The cursor of a form; any bit offset of a byte's size is taken. -/
def ofJson? (json : Json) : Option Cursor := do
  match ← json.fields? .ignored ["byte", "bit"] with
  | [some byte, some bit] => return ⟨← byte.natBelow? wordBound, ← bit.natBelow? 256⟩
  | _ => none

end Cursor

namespace Integer

/-- The form of an integer. -/
def toJson : Integer → Json
  | signed value width =>
    .record [("Signed", .record [("value", .integer value), ("width", .nat width)])]
  | unsigned value width =>
    .record [("Unsigned", .record [("value", .nat value), ("width", .nat width)])]

/-- The integer of a form. -/
def ofJson? (json : Json) : Option Integer := do
  match ← json.variant? with
  | ("Signed", some data) =>
    match ← data.fields? .ignored ["value", "width"] with
    | [some value, some width] =>
      return signed (← value.intBelow? signedWordBound) (← width.natBelow? 256)
    | _ => none
  | ("Unsigned", some data) =>
    match ← data.fields? .ignored ["value", "width"] with
    | [some value, some width] =>
      return unsigned (← value.natBelow? wordBound) (← width.natBelow? 256)
    | _ => none
  | _ => none

end Integer

namespace Slot

/-- The form of a slot is its number. -/
def toJson (slot : Slot) : Json := .nat slot.index

/-- The slot of a form. -/
def ofJson? (json : Json) : Option Slot := (json.natBelow? 0x100000000).map Slot.mk

end Slot

namespace FailureKind

/-- The form of a kind of failure. -/
def toJson : FailureKind → Json
  | noMatch => .str "NoMatch"
  | callback message => .record [("Callback", .record [("message", .str message)])]
  | leftRecursion slot => .record [("LeftRecursion", .record [("slot", slot.toJson)])]
  | recursionLimit limit => .record [("RecursionLimit", .record [("limit", .nat limit)])]

/-- The kind of failure of a form. -/
def ofJson? (json : Json) : Option FailureKind := do
  match ← json.variant? with
  | ("NoMatch", none) | ("NoMatch", some .null) => return noMatch
  | ("Callback", some data) =>
    match ← data.fields? .ignored ["message"] with
    | [some message] => return callback (← message.string?)
    | _ => none
  | ("LeftRecursion", some data) =>
    match ← data.fields? .ignored ["slot"] with
    | [some slot] => return leftRecursion (← Slot.ofJson? slot)
    | _ => none
  | ("RecursionLimit", some data) =>
    match ← data.fields? .ignored ["limit"] with
    | [some limit] => return recursionLimit (← limit.natBelow? wordBound)
    | _ => none
  | _ => none

end FailureKind

namespace Config

/-- A field of settings: what is given, or the default. -/
def field? {α : Type} (read : Json → Option α) (default : α) : Option Json → Option α
  | some json => read json
  | none => some default

/-- The settings of a form. -/
def ofJson? (json : Json) : Option Config := do
  match ← json.fields? .refused ["max_recursion_depth", "memoize"] with
  | [depth, memoize] => return {
      maxRecursionDepth := ← field? (·.natBelow? wordBound) ({} : Config).maxRecursionDepth depth
      memoize := ← field? Json.bool? ({} : Config).memoize memoize }
  | _ => none

/-- The settings that a text spells, if a run can use them. -/
def ofText (text : String) : Except ConfigError Config :=
  match (Json.parse? text).bind ofJson? with
  | some config => config.validate
  | none => .error .json

end Config

end Packrat
