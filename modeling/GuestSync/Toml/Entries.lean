/-
# GuestSync.Toml.Entries -- building tables line by line

A document defines each table and each key once. A header may still give a table
that was only implied by a header below it, a dotted key may add to tables that
dotted keys made, and an array of tables grows by its own header. Everything else
that names a key a second time is refused.
-/
import GuestSync.Toml.Value

namespace GuestSync.Toml.Entries

/-- The entries with the value of a key replaced, or with the key added. -/
def set (es : Entries) (key : String) (v : Value) : Entries :=
  match es with
  | [] => [(key, v)]
  | e :: r => if e.1 = key then (key, v) :: r else e :: set r key v

/-- Changes the entries of the table at the end of a path of keys. Tables that
are missing on the way are made: `dotted` ones for the key of a line, implied ones
for a header. The change is told whether dotted keys made the table it gets. -/
def within (dotted : Bool) (change : Bool → Entries → Option Entries) :
    Bool → List String → Entries → Option Entries
  | made, [], es => change made es
  | _, key :: path, es =>
    match es.lookup key with
    | none => do
      let inner ← within dotted change dotted path []
      es.set key (.table (if dotted then .dotted else .implied) inner)
    | some (.table origin inner) =>
      if origin = .braces ∨ (dotted ∧ origin = .header) then none
      else do
        let inner ← within dotted change (origin = .dotted) path inner
        es.set key (.table origin inner)
    | some (.tables earlier last) => do
      let last ← within dotted change false path last
      es.set key (.tables earlier last)
    | some _ => none

/-- The entries with a value at a dotted key. The last table on the way is either
the one that the line stands in or one that dotted keys made. -/
def assign (path : List String) (key : String) (v : Value) (es : Entries) : Option Entries :=
  within true (fun made es =>
    if made = path.isEmpty then none
    else if (es.lookup key).isSome then none
    else es.set key v) false path es

/-- The entries after the header of a table. -/
def openTable (path : List String) (key : String) (es : Entries) : Option Entries :=
  within false (fun _ es =>
    match es.lookup key with
    | none => es.set key (.table .header [])
    | some (.table .implied inner) => es.set key (.table .header inner)
    | some _ => none) false path es

/-- The entries after the header of the next table of an array. -/
def openNextTable (path : List String) (key : String) (es : Entries) : Option Entries :=
  within false (fun _ es =>
    match es.lookup key with
    | none => es.set key (.tables [] [])
    | some (.tables earlier last) => es.set key (.tables (earlier ++ [last]) [])
    | some _ => none) false path es

/-- The entries after a line in the table whose header is the last one. -/
def assignIn (header : List String) (path : List String) (key : String) (v : Value)
    (es : Entries) : Option Entries :=
  within false (fun _ es => assign path key v es) false header es

end GuestSync.Toml.Entries
