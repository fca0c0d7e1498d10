/-
# GuestSync.Sync.Run -- keeping the two sides in step

A run takes the subdirectories of its layout in order, one pass for each. A pass
makes the destination directory, lists the source, carries out the plan for its
entries one by one, then lists the destination and deletes what is stale. The
first failure ends the run, so nothing is deleted in a pass whose source entries
were not all dealt with.

A dry run reads and compares as any other but makes no directory, writes, tags
and deletes nothing, and says what it would do.
-/
import GuestSync.Session

namespace GuestSync

/-- How a run goes about its work. -/
structure Mode where
  direction : Direction
  dryRun : Bool
  tagger : Tagger

namespace Run

/-- The path by which an entry is shown: its name in the subdirectory. -/
def label (subdir path : Path) : Path :=
  let name : Path :=
    match path.fileName? with
    | some n => ⟨n⟩
    | none => path
  if subdir.same (Path.ofString ".") then name else subdir.join name

/-- Converts a source file into its destination, unless the destination holds the
result already, and tags it in either case if the run does that. -/
def convertFile (mode : Mode) (subdir source destination : Path) (rule : Rule) : Run Unit := do
  let input ← read source
  match convert rule.kind mode.direction input with
  | .error fault => throw (.conversion source fault)
  | .ok output =>
    let same ← holds destination output
    let shown := label subdir destination
    note (.report mode.dryRun (if same then .unchanged shown else .written rule.kind shown))
    unless mode.dryRun || same do
      write destination output
    let tags := !mode.dryRun && mode.direction.tagsDestination
    if tags then
      tag mode.tagger ⟨destination, rule.info.block⟩
    count fun t =>
      { t with
        tagged := if tags then t.tagged + 1 else t.tagged
        unchanged := if same then t.unchanged + 1 else t.unchanged
        converted := if same then t.converted else t.converted + 1 }

/-- Carries out one action. The subdirectory only says how entries are shown. -/
def execute (mode : Mode) (subdir : Path) : Action → Run Unit
  | .convert source destination rule => convertFile mode subdir source destination rule
  | .delete path => do
    note (.report mode.dryRun (.deleted (label subdir path)))
    unless mode.dryRun do
      delete path
    count fun t => { t with deleted := t.deleted + 1 }
  | .skip path reason => do
    note (.report mode.dryRun (.skipped (label subdir path) reason))
    count fun t => t.skip reason.words

/-- Deletes what is stale in the destination directory. -/
def cleanUp (rules : RuleTable) (mode : Mode) (subdir destination : Path) (plan : Plan) :
    Run Unit := do
  (plan.deletions rules (← list destination)).forM (execute mode subdir)

/-- Brings one subdirectory of the destination into step with the source. In a dry
run the destination may be missing, and then nothing in it is stale. -/
def pass (layout : Layout) (mode : Mode) (subdir : Path) : Run Unit := do
  let source := (layout.sourceRoot mode.direction).join subdir
  let destination := (layout.destinationRoot mode.direction).join subdir
  unless mode.dryRun do
    makeDirectories destination
  let plan := Plan.ofSource layout.rules destination (← list source)
  plan.actions.forM (execute mode subdir)
  if mode.dryRun && !(← get).disk.isDirectory destination then
    return ()
  else
    cleanUp layout.rules mode subdir destination plan

/-- Brings the destination of a layout into step with its source. -/
def sync (layout : Layout) (mode : Mode) : Run Unit := layout.subdirs.forM (pass layout mode)

end Run

end GuestSync
