/-
# GuestSync.Failure -- why work stops, and how that is said

A failure names what was attempted, on which path, and why it did not succeed.
Its message is the first line of its account: `account` gives the message and
then each further cause by itself, from the outside in.
-/
import GuestSync.Convert
import GuestSync.Disk.Basic
import GuestSync.Layout
import GuestSync.Settings.Basic

namespace GuestSync

/-- An operation on one path. -/
inductive Attempt where
  | makeDirectory
  | read
  | write
  | delete
  | readSettings
  | resolveLocalRoot
  deriving DecidableEq, Repr

/-- The words in front of the path. -/
def Attempt.words : Attempt → String
  | .makeDirectory => "Failed to create directory"
  | .read => "Failed to read"
  | .write => "Failed to write"
  | .delete => "Failed to delete"
  | .readSettings => "Failed to read config file"
  | .resolveLocalRoot => "Failed to resolve local root"

/-- Why an operation on a path did not succeed. -/
inductive Cause where
  | system (e : OsError)
  /-- A content that must be text is not UTF-8. -/
  | notText
  /-- A tagger other than the disk refused, with its own words. -/
  | refused (words : String)
  deriving DecidableEq, Repr

/-- The text for a cause. -/
def Cause.message : Cause → String
  | .system e => e.message
  | .notText => "stream did not contain valid UTF-8"
  | .refused words => words

/-- Why work stops. -/
inductive Failure where
  | operation (attempt : Attempt) (path : Path) (cause : Cause)
  | listing (path : Path) (cause : OsError)
  | conversion (path : Path) (fault : ConversionFault)
  | tagging (path : Path) (cause : Cause)
  /-- A header whose name is not one of those with tables. -/
  | unknownHeader (path : Path)
  /-- A member that bounds a table is not in the header. -/
  | missingMember (name : String)
  /-- The number of a member does not fit. -/
  | badLiteral (name literal : String)
  | settings (path : Path) (fault : SettingsFault)
  | layout (fault : LayoutFault)
  deriving DecidableEq, Repr

namespace Failure

/-- The text for a directory that cannot be listed, without the directory. -/
def listingCause (path : Path) (cause : OsError) : String :=
  "IO error for operation on " ++ path.display ++ ": " ++ cause.message

/-- The text for a settings file that is refused, without the file. -/
def settingsCause (fault : SettingsFault) : String := "TOML parse error: " ++ fault.message

/-- The text for a failure. -/
def message : Failure → String
  | .operation attempt path cause =>
    attempt.words ++ " " ++ path.display ++ ": " ++ cause.message
  | .listing path cause => "Failed to list " ++ path.display ++ ": " ++ listingCause path cause
  | .conversion path fault => "Failed to convert " ++ path.display ++ ": " ++ fault.message
  | .tagging path cause => "Failed to set file tag on " ++ path.display ++ ": " ++ cause.message
  | .unknownHeader path => "unknown header file: " ++ path.display
  | .missingMember name => "missing value: " ++ Quoted.ofString name
  | .badLiteral name literal =>
    "invalid integer literal " ++ Quoted.ofString literal ++ " for " ++ name
  | .settings path fault =>
    "Failed to parse config file " ++ path.display ++ ": " ++ settingsCause fault
  | .layout fault => "Invalid configuration: " ++ fault.message

/-- The message and then each further cause, from the outside in. -/
def account (f : Failure) : List String :=
  f.message ::
    match f with
    | .operation _ _ cause => [cause.message]
    | .listing path cause => [listingCause path cause, cause.message]
    | .conversion _ fault => [fault.message]
    | .tagging _ cause => [cause.message]
    | .settings _ fault => [settingsCause fault]
    | _ => []

end Failure

end GuestSync
