/-!
# TOML values

A TOML document is a table of values. A table remembers how it was made, because that decides what
a later line of the document may add to it: a table written in braces or opened by a header is
closed against dotted keys, one that a longer header implied may still be opened once, and one that
a dotted key made takes more dotted keys only.

`Entries.modifyAt` walks a path of keys into nested tables and changes the table at its end. The
three ways in which a document adds to its tables, `addAt`, `openTable` and `openArray`, are
instances of it.
-/

namespace TopicRelay

namespace Toml

/-- How a table came to be. -/
inductive Origin where
  /-- Written in braces. -/
  | inline
  /-- Opened by a header of its own. -/
  | header
  /-- Named only inside a longer header. -/
  | implied
  /-- Made by a dotted key. -/
  | dotted
deriving DecidableEq, Repr

/-- A floating-point number as it is written: `± mantissa * 10 ^ exponent`, or no finite number. -/
inductive Decimal where
  | finite (negative : Bool) (mantissa : Nat) (exponent : Int)
  | infinite (negative : Bool)
  | nan
deriving DecidableEq, Repr

/-- A day of the calendar. -/
structure Date where
  year : Nat
  month : Nat
  day : Nat
deriving DecidableEq, Repr

/-- A time of day, with as many decimals of a second as were written. -/
structure TimeOfDay where
  hour : Nat
  minute : Nat
  second : Nat
  decimals : List Nat := []
deriving DecidableEq, Repr

/-- A date, a time or both, with the offset from universal time in minutes if there is one. -/
structure DateTime where
  date : Option Date := none
  time : Option TimeOfDay := none
  offset : Option Int := none
deriving DecidableEq, Repr

/-- A TOML value. -/
inductive Value where
  | string (s : String)
  | integer (i : Int)
  | float (d : Decimal)
  | boolean (b : Bool)
  | dateTime (d : DateTime)
  | array (items : List Value)
  | table (origin : Origin) (entries : List (String × Value))
  /-- Tables opened one after the other by headers in double brackets. -/
  | tables (items : List (List (String × Value)))
deriving Repr

/-- The entries of a table, in the order in which they were made. -/
abbrev Entries := List (String × Value)

namespace Entries

/-- The entries with the value of a key replaced. -/
def replace (key : String) (v : Value) (es : Entries) : Entries :=
  es.map fun e => if e.1 = key then (key, v) else e

/-- Changes the table at the end of a path by `f`, which is told how that table came to be. Tables
that are missing on the way are made with the origin `create`; the walk enters tables whose origin
`enter` allows, and of tables in double brackets the last. -/
def modifyAt (create : Origin) (enter : Origin → Bool) (f : Origin → Entries → Option Entries) :
    (path : List String) → (origin : Origin) → Entries → Option Entries
  | [], origin, es => f origin es
  | key :: path, _, es =>
    match es.lookup key with
    | none => do
      let sub ← modifyAt create enter f path create []
      return es ++ [(key, .table create sub)]
    | some (.table origin sub) =>
      if enter origin then do
        let sub ← modifyAt create enter f path origin sub
        return replace key (.table origin sub) es
      else none
    | some (.tables items) => do
      let sub ← modifyAt create enter f path .header (← items.getLast?)
      return replace key (.tables (items.dropLast ++ [sub])) es
    | some _ => none

/-- Adds an entry whose key is new. -/
def add (key : String) (v : Value) (es : Entries) : Option Entries :=
  if (es.lookup key).isSome then none else some (es ++ [(key, v)])

/-- Adds the value of a dotted key, which ends in tables that dotted keys made. -/
def addAt (path : List String) (key : String) (v : Value) (es : Entries) : Option Entries :=
  modifyAt .dotted (fun o => o = .implied || o = .dotted)
    (fun origin es => if path ≠ [] ∧ origin ≠ .dotted then none else add key v es)
    path .header es

/-- Opens the table of a header. It must be new, or so far only implied. -/
def openTable (path : List String) (key : String) (es : Entries) : Option Entries :=
  modifyAt .implied (· ≠ .inline)
    (fun _ es =>
      match es.lookup key with
      | none => some (es ++ [(key, .table .header [])])
      | some (.table .implied sub) => some (replace key (.table .header sub) es)
      | some _ => none)
    path .header es

/-- Opens one more table of a header in double brackets. -/
def openArray (path : List String) (key : String) (es : Entries) : Option Entries :=
  modifyAt .implied (· ≠ .inline)
    (fun _ es =>
      match es.lookup key with
      | none => some (es ++ [(key, .tables [[]])])
      | some (.tables items) => some (replace key (.tables (items ++ [[]])) es)
      | some _ => none)
    path .header es

/-- Adds the value of a dotted key to the table that the last header opened. -/
def addWithin (header path : List String) (key : String) (v : Value) (es : Entries) :
    Option Entries :=
  modifyAt .implied (· ≠ .inline) (fun _ es => addAt path key v es) header .header es

end Entries

end Toml

end TopicRelay
