import TopicRelay.Numeral

/-!
# Log levels

How much is logged, from nothing to everything. A level is read from its number or its name.
-/

namespace TopicRelay

/-- How much is logged. -/
inductive LogLevel where
  | off
  | error
  | warn
  | info
  | debug
  | trace
deriving DecidableEq, Repr

namespace LogLevel

/-- The name of a level. -/
def text : LogLevel → String
  | .off => "off"
  | .error => "error"
  | .warn => "warn"
  | .info => "info"
  | .debug => "debug"
  | .trace => "trace"

/-- The levels in order, so that the place of a level is its number. -/
def all : List LogLevel := [.off, .error, .warn, .info, .debug, .trace]

/-- The level with a number or a name, in letters of either case. -/
def read? (s : String) : Option LogLevel :=
  match Numeral.read 10 Numeral.wordBound (Bytes.ofString s) with
  | .ok n => all[n]?
  | .error _ => all.find? fun l => l.text = s.map Char.toLower

end LogLevel

end TopicRelay
