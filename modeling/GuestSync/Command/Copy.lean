/-
# GuestSync.Command.Copy -- the command that copies

The command takes the word for a direction, loads the user's settings, works out
the layout and runs. It ends with a report on what it did.
-/
import GuestSync.Command.Finish
import GuestSync.Command.Help
import GuestSync.Settings.Load
import GuestSync.Sync.Run

namespace GuestSync.Command

/-- The direction of a word. -/
def direction? (word : Bytes) : Option Direction :=
  [Direction.push, Direction.pull].find? fun d => Utf8.ofString d.word == word

/-- One operand, which is the word for a direction. -/
def copyGrammar : Grammar :=
  { options := [.verbose, .dryRun, .help, .version]
    admits := fun before word => before == [] && (direction? word).isSome }

/-- What the command does for a user once its command line is understood. The
checkout is the local root of a user whose settings name none. -/
def copyFiles (env : Environment) (checkout : Path) (direction : Direction)
    (verbose dryRun : Bool) (disk : Disk) : Finish :=
  let outermost := "Failed to " ++ direction.word
  match env.load disk env.explicitFile with
  | .error f =>
    Finish.failure (.start disk) "" outermost ("Failed to load configuration" :: f.account)
  | .ok settings =>
    match env.layout disk settings checkout with
    | .error f =>
      Finish.failure (.start disk) "" outermost
        (("Failed to resolve sync layout (default local root is the build checkout " ++
          checkout.display ++
          "; set local_root in the config file to sync another directory)") :: f.account)
    | .ok layout =>
      let banner :=
        if verbose then
          "Source: " ++ (layout.sourceRoot direction).display ++ "\n" ++
            "Dest:   " ++ (layout.destinationRoot direction).display ++ "\n"
        else ""
      match (Run.sync layout ⟨direction, dryRun, .disk⟩).run (.start disk) with
      | (.ok (), session) =>
        Finish.success session (session.tally.summary direction ++ "\n") banner
      | (.error f, session) =>
        Finish.failure session banner outermost ("Sync operation failed" :: f.account)

/-- The command. -/
def copy (env : Environment) (checkout : Path) (arguments : List Bytes) (disk : Disk) :
    Finish :=
  match copyGrammar.read arguments with
  | .error stop =>
    Finish.ofStop (fun long => if long then Help.copyLong else Help.copyShort) Help.copyVersion
      disk stop
  | .ok given =>
    match given.operands.head?.bind direction? with
    | none => Finish.ofStop (fun _ => "") "" disk .refused
    | some direction =>
      copyFiles env checkout direction (given.flags.contains .verbose)
        (given.flags.contains .dryRun) disk

end GuestSync.Command
