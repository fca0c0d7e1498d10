/-
# GuestSync.Settings.Load -- from the user's settings to a layout

The settings file is the one that the environment names, which must then exist, or
else the one in the user's configuration directory, if there is one. A root that
starts with `~` lies in the home directory. The local root must exist and is held
by its absolute path; the guest root stays as it is spelled. A layout that comes
out of this has passed its check.
-/
import GuestSync.Disk.Operation
import GuestSync.Failure

namespace GuestSync

/-- Where a user's files are, as the environment says. -/
structure Environment where
  home : Path
  /-- The user's configuration directory. -/
  configuration : Option Path
  /-- The settings file to take. -/
  settingsFile : Option Path
  deriving DecidableEq, Repr

namespace Environment

/-- The settings file that the environment names. An empty name is none. -/
def explicitFile (env : Environment) : Option Path := env.settingsFile.filter (!·.isEmpty)

/-- The directory for the configuration of programs. Only an absolute path counts
as one that the environment names. -/
def configurationDirectory (env : Environment) : Path :=
  match env.configuration.filter (·.isAbsolute) with
  | some p => p
  | none => env.home.join (Path.ofString ".config")

/-- The settings file in the configuration directory. -/
def standardFile (env : Environment) : Path :=
  (env.configurationDirectory.join (Path.ofString "copymac")).join (Path.ofString "config.toml")

/-- The settings file to load: an explicit one whether it exists or not, else the
standard one if it is a file. -/
def findFile (env : Environment) (d : Disk) (explicit : Option Path) : Option Path :=
  match explicit with
  | some p => some p
  | none => if d.isFile env.standardFile then some env.standardFile else none

/-- The settings of the user. -/
def load (env : Environment) (d : Disk) (explicit : Option Path) : Except Failure Settings :=
  match env.findFile d explicit with
  | none => .ok .empty
  | some p =>
    match d.read p with
    | .error e => .error (.operation .readSettings p (.system e))
    | .ok content =>
      match Utf8.decode content with
      | none => .error (.operation .readSettings p .notText)
      | some text =>
        match Settings.ofText text with
        | .error fault => .error (.settings p fault)
        | .ok settings => .ok settings

/-- The guest root of a user who names none. -/
def defaultGuestRoot (env : Environment) : Path := env.home.join (Path.ofString "SyncFiles")

/-- A path with `~` in front taken in the home directory. -/
def expandHome (env : Environment) (p : Path) : Path :=
  match p.after? (Utf8.ofString "~") with
  | some rest => env.home.join rest
  | none => p

/-- The layout that settings ask for. -/
def layout (env : Environment) (d : Disk) (s : Settings) (defaultLocalRoot : Path) :
    Except Failure Layout := do
  let spelled := (s.localRoot.map env.expandHome).getD defaultLocalRoot
  let localRoot ←
    match d.canonical spelled with
    | .ok p => .ok p
    | .error e => .error (.operation .resolveLocalRoot spelled (.system e))
  let guestRoot := (s.guestRoot.map env.expandHome).getD env.defaultGuestRoot
  let l : Layout :=
    { Layout.standard localRoot guestRoot with
      subdirs := s.subdirs.getD Layout.standardSubdirs }
  match l.check with
  | .ok () => .ok l
  | .error fault => .error (.layout fault)

end Environment

end GuestSync
