/-
# GuestSync.Command.Finish -- how a command ends

A command ends with a code, with what it has printed and with the session of its
run. Code 0 is success, code 1 is a failure that is reported with all its causes,
and code 2 a command line that is refused.
-/
import GuestSync.Command.Arguments
import GuestSync.Session

namespace GuestSync.Command

/-- The end of a command. -/
structure Finish where
  code : Nat
  output : String
  errors : String
  session : Session

namespace Finish

/-! ## Reports on failures -/

/-- A text with its lines set in, the first one behind `first` and the others
behind `others`. -/
def indented (first others : List Char) : List Char → List Char
  | cs => first ++ cs.flatMap fun c => if c = '\n' then '\n' :: others else [c]

/-- A number set to the right in five columns. -/
def column (n : Nat) : List Char :=
  let digits := (toString n).toList
  List.replicate (5 - digits.length) ' ' ++ digits

/-- A cause in the report: numbered if there are several, in any case set in. -/
def cause (numbered : Bool) (n : Nat) (text : String) : String :=
  let spaces (k : Nat) := List.replicate k ' '
  String.ofList <|
    if numbered then indented (column n ++ [':', ' ']) (spaces 7) text.toList
    else indented (spaces 4) (spaces 4) text.toList

/-- The report on a failure: what did not succeed, and then the causes from the
outside in. -/
def report (outermost : String) (causes : List String) : String :=
  let numbered := 1 < causes.length
  let lines := causes.mapIdx fun n text => cause numbered n text ++ "\n"
  "Error: " ++ outermost ++ "\n\nCaused by:\n" ++ String.join lines

/-! ## Ends -/

/-- The end of a command line that asks for something else than a run. -/
def ofStop (helpText : Bool → String) (version : String) (disk : Disk) : Stop → Finish
  | .help long => ⟨0, helpText long, "", .start disk⟩
  | .version => ⟨0, version, "", .start disk⟩
  | .refused => ⟨2, "", "error: invalid arguments\n", .start disk⟩

/-- The end of a run that succeeded, with what is printed after its own lines. -/
def success (session : Session) (outputTail errors : String) : Finish :=
  ⟨0, Session.print session.outputLines ++ outputTail,
    errors ++ Session.print session.errorLines, session⟩

/-- The end of a run that failed, with what was printed before its own lines. -/
def failure (session : Session) (errors outermost : String) (causes : List String) : Finish :=
  ⟨1, Session.print session.outputLines,
    errors ++ Session.print session.errorLines ++ report outermost causes, session⟩

end Finish

end GuestSync.Command
