/-
# GuestSync.Command.Extract -- the command that extracts constants

The command takes headers and writes their tables into one directory, the current
one unless another is named. It takes the headers in order and stops at the first
failure.
-/
import GuestSync.Command.Finish
import GuestSync.Command.Help
import GuestSync.Header.Extract

namespace GuestSync.Command

/-- One or more paths of headers. -/
def extractGrammar : Grammar :=
  { options := [.verbose, .outputDirectory, .help, .version]
    admits := fun _ path => path != [] }

/-- Writes the tables of all headers, up to the first that fails. -/
def extractAll (directory : Path) : List Path → Session → Finish
  | [], session => Finish.success session "" ""
  | header :: rest, session =>
    match (Run.extract directory header).run session with
    | (.ok _, session) => extractAll directory rest session
    | (.error f, session) =>
      Finish.failure session "" ("Failed to extract constants from " ++ header.display) f.account

/-- The command. -/
def extract (arguments : List Bytes) (disk : Disk) : Finish :=
  match extractGrammar.read arguments with
  | .error stop => Finish.ofStop (fun _ => Help.extract) Help.extractVersion disk stop
  | .ok given =>
    extractAll (given.outputDirectory.getD (Path.ofString ".")) (given.operands.map (⟨·⟩))
      (.start disk)

end GuestSync.Command
