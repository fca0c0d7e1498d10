/-
# GuestSync.Settings.Basic -- the settings that a user can give

A settings file may give the two roots and the subdirectories; what it does not
give keeps its standard value. The keys of the file are looked at in the order of
their characters, and the first that is unknown or has a value of the wrong type
is refused.
-/
import GuestSync.Path
import GuestSync.Text.Quoted
import GuestSync.Toml.Document

namespace GuestSync

/-- The settings of a user, each of which may be missing. -/
structure Settings where
  localRoot : Option Path
  guestRoot : Option Path
  subdirs : Option (List Path)
  deriving DecidableEq, Repr

/-- What a setting must be. -/
inductive Expected where
  | pathText
  | sequence
  deriving DecidableEq, Repr

/-- Why the text of a settings file is refused. -/
inductive SettingsFault where
  /-- The text is no document. -/
  | malformed
  | unknownField (key : String)
  | wrongType (found : String) (expected : Expected)
  /-- A number has no value in its type. -/
  | numberTooLarge
  deriving DecidableEq, Repr

/-- The words for what a setting must be. -/
def Expected.words : Expected → String
  | .pathText => "path string"
  | .sequence => "a sequence"

/-- The text for a fault. -/
def SettingsFault.message : SettingsFault → String
  | .malformed => "malformed document"
  | .unknownField key =>
    "unknown field `" ++ key ++
      "`, expected one of `local_root`, `guest_root`, `subdirs`"
  | .wrongType found expected => "invalid type: " ++ found ++ ", expected " ++ expected.words
  | .numberTooLarge => "number overflowed"

namespace Settings

/-- The settings of a user who gives none. -/
def empty : Settings := ⟨none, none, none⟩

/-- The words for a value. Integers are named by the width they need; those that
need more than 128 bits and floating point numbers beyond double precision have
no words. -/
def describe : Toml.Value → Option String
  | .string s => some ("string " ++ Quoted.ofString s)
  | .integer n =>
    let shown := "integer `" ++ toString n ++ "`"
    let below (bits : Int) : Bool := n < Decimal.pow2 bits
    if -Decimal.pow2 63 ≤ n && below 64 then some shown
    else if -Decimal.pow2 127 ≤ n && below 127 then some (shown ++ " as i128")
    else if 0 ≤ n && below 128 then some (shown ++ " as u128")
    else none
  | .float x => x.text?.map fun t => "floating point `" ++ t ++ "`"
  | .boolean b => some ("boolean `" ++ (if b then "true" else "false") ++ "`")
  | .dateTime => some "map"
  | .table .. => some "map"
  | .array _ => some "sequence"
  | .tables .. => some "sequence"

/-- The fault of a value that is not what it must be. -/
def mismatch (v : Toml.Value) (expected : Expected) : SettingsFault :=
  match describe v with
  | some found => .wrongType found expected
  | none => .numberTooLarge

/-- The path that a value spells. -/
def path : Toml.Value → Except SettingsFault Path
  | .string s => .ok (Path.ofString s)
  | v => .error (mismatch v .pathText)

/-- The paths that a value spells. -/
def paths : Toml.Value → Except SettingsFault (List Path)
  | .array items => items.mapM path
  | .tables earlier last => (earlier ++ [last]).mapM fun es => path (.table .header es)
  | v => .error (mismatch v .sequence)

/-- The settings with one more entry of the file. -/
def add (s : Settings) (entry : String × Toml.Value) : Except SettingsFault Settings := do
  if entry.1 = "local_root" then return { s with localRoot := some (← path entry.2) }
  else if entry.1 = "guest_root" then return { s with guestRoot := some (← path entry.2) }
  else if entry.1 = "subdirs" then return { s with subdirs := some (← paths entry.2) }
  else throw (.unknownField entry.1)

/-- The settings that a text gives. -/
def ofText (text : List Char) : Except SettingsFault Settings :=
  match Toml.parse? text with
  | none => .error .malformed
  | some entries => (entries.mergeSort fun a b => a.1 ≤ b.1).foldlM add empty

end Settings

end GuestSync
