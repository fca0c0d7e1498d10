/-
# GuestSync.Main -- the commands on the disk of a machine

A command works on a `Disk`, so this layer decides nothing. It takes note of the
part of the machine's disk that the command can look at, lets the command run on
that, and carries out the journal of the run in its order. The executable holds
both commands and goes by its own name.

The machine's operations reach no extended attributes. The types and creators of
a push are therefore counted and reported, but they stay in the journal.
-/
import GuestSync.Command.Copy
import GuestSync.Command.Extract

namespace GuestSync.Machine

/-! ## Taking note of what is there -/

/-- A disk with directories at a location and above it. -/
def withDirectories (d : Disk) (l : Location) : Disk :=
  (Path.beginnings l ++ [l]).foldl (fun d l => if l = [] then d else d.put l .directory) d

/-- The location that an absolute path without `..` spells. -/
def locationOf (spelling : String) : Location :=
  (Path.ofString spelling).components.filterMap fun
    | .name n => some n
    | _ => none

/-- The node at the end of a path of the machine that has no links in it. -/
def nodeAt (spelling : String) : IO (Option Node) := do
  try
    let place ← IO.FS.realPath spelling
    match (← place.metadata).type with
    | .dir => return some .directory
    | .file => return some (.file (← IO.FS.readBinFile place).toList none)
    | _ => return some .fifo
  catch _ => return none

/-- A disk with the node that a name stands for in a directory of the machine, and
for a link with what the link leads to. A link that leads nowhere gets a target
that no entry of the machine can have, so it leads nowhere on the disk as well. -/
def noteEntry (d : Disk) (directory name : String) : IO Disk := do
  try
    let here ← IO.FS.realPath directory
    let place := here / name
    let l := locationOf here.toString ++ [Utf8.ofString name]
    let d := withDirectories d (locationOf here.toString)
    match (← place.symlinkMetadata).type with
    | .symlink =>
      match ← (IO.FS.realPath place).toBaseIO with
      | .ok target => do
        let far := locationOf target.toString
        let d := d.put l (.link (Path.ofString target.toString))
        let d := withDirectories d far.dropLast
        return ((← nodeAt target.toString).map (d.put far)).getD d
      | .error _ => return d.put l (.link ⟨Utf8.ofString name ++ [0x00]⟩)
    | _ => return ((← nodeAt place.toString).map (d.put l)).getD d
  catch _ => return d

/-- A disk with every node on the way along a path. -/
def notePath (d : Disk) (p : Path) : IO Disk := do
  let ways := (Path.beginnings p.components).reverse ++ [p.components]
  ways.foldlM
    (fun d way =>
      match way.getLast? with
      | some (.name n) =>
        let above := Path.ofComponents way.dropLast
        noteEntry d (if above.isEmpty then "." else above.display) (Utf8.lossy n)
      | _ => return d)
    d

/-- A disk with a directory and the entries in it. -/
def noteDirectory (d : Disk) (p : Path) : IO Disk := do
  let d ← notePath d p
  try
    let here ← IO.FS.realPath p.display
    let entries ← here.readDir
    entries.foldlM (fun d entry => noteEntry d p.display entry.fileName)
      (withDirectories d (locationOf here.toString))
  catch _ => return d

/-- An empty disk whose relative paths start where those of the machine do. -/
def blank : IO Disk := do
  let here := locationOf (← IO.currentDir).toString
  return withDirectories (Disk.empty here) here

/-! ## Carrying out a run -/

/-- Does on the machine what an entry of a journal says. -/
def carryOut : Event → IO Unit
  | .makeDirectories p => IO.FS.createDirAll p.display
  | .write p content => IO.FS.writeBinFile p.display ⟨content.toArray⟩
  | .delete p => IO.FS.removeFile p.display
  | .report .. => return ()
  | .announce _ => return ()
  | .tag .. => return ()

/-- Carries out the run of a command and prints what the command says. What the
machine refuses is reported, unless the run has failed and says so itself. -/
def finish (f : Command.Finish) : IO UInt32 := do
  let refusals ← f.session.journal.filterMapM fun event => do
    match ← (carryOut event).toBaseIO with
    | .ok () => return none
    | .error e => return some (toString e)
  IO.print f.output
  IO.eprint f.errors
  let untagged := f.session.journal.countP fun
    | .tag _ accepted => accepted
    | _ => false
  if untagged ≠ 0 then
    IO.eprintln ("Types and creators not stored: " ++ toString untagged)
  if f.code = 0 ∧ refusals ≠ [] then
    refusals.forM IO.eprintln
    return 1
  return f.code.toUInt32

/-! ## The two commands -/

/-- The environment of the user. -/
def environment : IO Environment := do
  let named (name : String) : IO (Option Path) := do
    return (← IO.getEnv name).map Path.ofString
  return {
    home := (← named "HOME").getD (Path.ofString "/")
    configuration := ← named "XDG_CONFIG_HOME"
    settingsFile := ← named "COPYMAC_CONFIG" }

/-- The directories that the settings ask for, on either side. -/
def directories (env : Environment) (checkout : Path) (settings : Settings) : List Path :=
  let roots := [(settings.localRoot.map env.expandHome).getD checkout,
    (settings.guestRoot.map env.expandHome).getD env.defaultGuestRoot]
  roots.flatMap fun root =>
    root :: (settings.subdirs.getD Layout.standardSubdirs).map root.join

/-- Runs the command that copies. The checkout is the directory above that of the
executable. -/
def copy (arguments : List Bytes) : IO UInt32 := do
  let env ← environment
  let checkout := (Path.ofString (← IO.appDir).toString).join (Path.ofString "..")
  let d ← notePath (← blank) (env.explicitFile.getD env.standardFile)
  let d ←
    match env.load d env.explicitFile with
    | .ok settings => (directories env checkout settings).foldlM noteDirectory d
    | .error _ => pure d
  finish (Command.copy env checkout arguments d)

/-- Runs the command that extracts constants. -/
def extract (arguments : List Bytes) : IO UInt32 := do
  let directory :=
    match Command.extractGrammar.read arguments with
    | .ok given => given.outputDirectory.getD (Path.ofString ".")
    | .error _ => Path.ofString "."
  let d ← noteDirectory (← blank) directory
  let d ← (arguments.map Path.mk).foldlM notePath d
  finish (Command.extract arguments d)

end GuestSync.Machine

/-- Runs the command that the executable is named for. -/
def main (arguments : List String) : IO UInt32 := do
  let arguments := arguments.map GuestSync.Utf8.ofString
  if (← IO.appPath).fileName = some "extract-constants" then
    GuestSync.Machine.extract arguments
  else
    GuestSync.Machine.copy arguments
