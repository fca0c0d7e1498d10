/-
# GuestSync.Toml.Value -- the values of a TOML document

A number keeps what its text says: integers are unbounded and floating point
numbers are exact decimals, because whether a number fits is asked only where it
is used. A table remembers how it came about, which decides whether a later line
may add to it.
-/
import GuestSync.Decimal.Shortest

namespace GuestSync.Toml

/-- A floating point number as its text gives it. -/
inductive Float64 where
  | infinite (negative : Bool)
  | nan
  | finite (negative : Bool) (digits : Nat) (exponent : Int)
  deriving DecidableEq, Repr

/-- How a table came about. -/
inductive Origin where
  /-- By a header of a table inside it. -/
  | implied
  /-- By a dotted key of a line inside it. -/
  | dotted
  /-- By its own header. -/
  | header
  /-- Between braces, which closes it. -/
  | braces
  deriving DecidableEq, Repr

/-- A value. The tables of an array of tables are those before the last and the
last one, which later lines add to. -/
inductive Value where
  | string (s : String)
  | integer (n : Int)
  | float (x : Float64)
  | boolean (b : Bool)
  | dateTime
  | array (items : List Value)
  | table (origin : Origin) (entries : List (String × Value))
  | tables (earlier : List (List (String × Value))) (last : List (String × Value))

/-- The values of a table by key, each key once. -/
abbrev Entries := List (String × Value)

/-- The text of a floating point number: the fewest digits that read back, in
positional notation. `none` if it is too large for double precision. -/
def Float64.text? : Float64 → Option String
  | .infinite negative => some (if negative then "-inf" else "inf")
  | .nan => some "NaN"
  | .finite negative digits exponent =>
    (Decimal.roundDecimal digits exponent).map fun x =>
      String.ofList ((if negative then ['-'] else []) ++ x.text)

end GuestSync.Toml
