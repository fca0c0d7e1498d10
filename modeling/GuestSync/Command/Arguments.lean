/-
# GuestSync.Command.Arguments -- what a command line asks for

Arguments are read from left to right, and the first one that settles the matter
wins: a request for help or for the version ends the reading, and so does the
first mistake. Short flags may be written together, a value follows its option
directly, behind an equals sign or as the next argument, and `--` makes operands
of all that follows. Flags and options are given at most once, their names in
full.
-/
import GuestSync.Path

namespace GuestSync.Command

/-- The flags and options of the commands. -/
inductive Flag where
  | verbose
  | dryRun
  | outputDirectory
  | help
  | version
  deriving DecidableEq, Repr

/-- What ends the reading of a command line. -/
inductive Stop where
  | help (long : Bool)
  | version
  /-- The command line is wrong. -/
  | refused
  deriving DecidableEq, Repr

/-- What a command line has given so far. -/
structure Given where
  flags : List Flag
  outputDirectory : Option Path
  operands : List Bytes
  deriving DecidableEq, Repr

/-- The command line of one command: the options it has, and whether an operand
may follow the operands before it. -/
structure Grammar where
  options : List Flag
  admits : List Bytes → Bytes → Bool

/-- The letter of a flag that has one. -/
def Flag.letter : Flag → Option Char
  | .verbose => some 'v'
  | .dryRun => none
  | .outputDirectory => some 'o'
  | .help => some 'h'
  | .version => some 'V'

/-- The name of a flag. -/
def Flag.name : Flag → String
  | .verbose => "verbose"
  | .dryRun => "dry-run"
  | .outputDirectory => "output-dir"
  | .help => "help"
  | .version => "version"

namespace Grammar

/-- The flag of a letter. -/
def byLetter? (g : Grammar) (b : UInt8) : Option Flag :=
  g.options.find? fun f => f.letter.any fun c => c.toNat == b.toNat

/-- The flag of a name. -/
def byName? (g : Grammar) (name : Bytes) : Option Flag :=
  g.options.find? fun f => Utf8.ofString f.name == name

end Grammar

namespace Given

/-- Nothing given. -/
def none : Given := ⟨[], Option.none, []⟩

/-- One more flag without a value. -/
def raise (given : Given) (f : Flag) : Except Stop Given :=
  if given.flags.contains f then .error .refused
  else .ok { given with flags := f :: given.flags }

/-- The value of the output directory. -/
def setDirectory (given : Given) (value : Bytes) : Except Stop Given :=
  if value = [] then .error .refused
  else do return { ← given.raise .outputDirectory with outputDirectory := some ⟨value⟩ }

/-- One more operand. -/
def addOperand (g : Grammar) (given : Given) (operand : Bytes) : Except Stop Given :=
  if g.admits given.operands operand then
    .ok { given with operands := given.operands ++ [operand] }
  else .error .refused

end Given

/-- The octet `-`. -/
def dash : UInt8 := 0x2D

/-- The octet `=`. -/
def equals : UInt8 := 0x3D

/-- Whether an argument is taken for flags and so is no value of an option. -/
def looksLikeFlag (a : Bytes) : Bool := a.head? == some dash && a != [dash]

/-- Reads flags that are written together. Tells whether the last of them still
waits for its value. -/
def readLetters (g : Grammar) : Bytes → Given → Except Stop (Given × Bool)
  | [], given => .ok (given, false)
  | b :: r, given =>
    match g.byLetter? b with
    | none => .error .refused
    | some .help => .error (.help false)
    | some .version => .error .version
    | some .outputDirectory =>
      if r = [] then .ok (given, true)
      else do
        let given ← given.setDirectory (if r.head? = some equals then r.drop 1 else r)
        return (given, false)
    | some f => do readLetters g r (← given.raise f)

/-- Reads a flag that is written with its name, starting behind the two dashes.
Tells whether it still waits for its value. -/
def readName (g : Grammar) (a : Bytes) (given : Given) : Except Stop (Given × Bool) :=
  let name := a.takeWhile (· != equals)
  let hasValue := a.contains equals
  match g.byName? name with
  | none => .error .refused
  | some .outputDirectory =>
    if hasValue then do return (← given.setDirectory (a.drop (name.length + 1)), false)
    else .ok (given, true)
  | some f =>
    if hasValue then .error .refused
    else
      match f with
      | .help => .error (.help true)
      | .version => .error .version
      | f => do return (← given.raise f, false)

/-- Reads the arguments after those that have given something already. -/
def readArguments (g : Grammar) : List Bytes → Given → Except Stop Given
  | [], given => .ok given
  | a :: rest, given =>
    if a = [dash, dash] then rest.foldlM (Given.addOperand g) given
    else if looksLikeFlag a then do
      let (given, waits) ←
        if a.take 2 = [dash, dash] then readName g (a.drop 2) given
        else readLetters g (a.drop 1) given
      if waits then
        match rest with
        | [] => .error .refused
        | value :: rest =>
          if looksLikeFlag value then .error .refused
          else do readArguments g rest (← given.setDirectory value)
      else readArguments g rest given
    else do readArguments g rest (← given.addOperand g a)

/-- Reads a whole command line, which must have an operand. -/
def Grammar.read (g : Grammar) (arguments : List Bytes) : Except Stop Given := do
  let given ← readArguments g arguments .none
  if given.operands = [] then .error .refused else .ok given

end GuestSync.Command
