import TopicRelay.LogFilter.Directive

/-!
# Log filters

A log filter is a list of directives, separated by commas. A text that cannot be read stands for the
filter `info`.

A filter is written with the more specific directives first, and those that say more than a target
and the names of fields after all others.
-/

namespace TopicRelay

/-- A log filter. -/
structure LogFilter where
  /-- The directives that look at targets and names of fields only. -/
  statics : List LogDirective := []
  /-- The directives that look at spans or fields. -/
  dynamics : List LogDirective := []
deriving DecidableEq, Repr

namespace LogFilter

/-- The filter of a list of directives. -/
def ofDirectives (ds : List LogDirective) : LogFilter :=
  let (dynamic, static) := ds.partition (·.isDynamic)
  let statics := static ++ dynamic.filter (·.isStatic)
  { statics := statics.foldl (fun l d => LogDirective.insert d l) []
    dynamics := dynamic.foldl (fun l d => LogDirective.insert d l) [] }

/-- Reads a filter. Of several faults the first counts. -/
def read (s : String) : Except LogFault LogFilter := do
  let parts := (s.toList.splitOn ',').filter (· ≠ [])
  return ofDirectives (← parts.mapM LogDirective.read)

/-- The filter of a setting: what it says if it can be read, and `info` otherwise. Only a cut within
a character leaves no filter. -/
def ofSetting? (s : String) : Option LogFilter :=
  match read s with
  | .ok f => some f
  | .error .unreadable => some { statics := [{ level := .info }] }
  | .error .cutCharacter => none

/-- The text of a filter. -/
def text (f : LogFilter) : String :=
  String.intercalate "," ((f.statics ++ f.dynamics).map LogDirective.text)

end LogFilter

end TopicRelay
