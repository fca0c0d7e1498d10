/-
# GuestSync.Command.Help -- the texts that the commands explain themselves with
-/
import GuestSync.Bytes

namespace GuestSync.Command.Help

/-- Lines as they are printed. -/
def page (lines : List String) : String := String.join (lines.map (· ++ "\n"))

/-- The short help of the command that copies. -/
def copyShort : String :=
  page [
    "Command-line tools for copying sources to and from a classic Mac OS guest",
    "",
    "Usage: copymac [OPTIONS] <DIRECTION>",
    "",
    "Arguments:",
    "  <DIRECTION>  Direction to copy [possible values: push, pull]",
    "",
    "Options:",
    "  -v, --verbose  Enable debug logging",
    "      --dry-run  Preview changes without executing (dry-run)",
    "  -h, --help     Print help (see more with '--help')",
    "  -V, --version  Print version"]

/-- The long help of the command that copies. -/
def copyLong : String :=
  page [
    "Command-line tools for copying sources to and from a classic Mac OS guest",
    "",
    "Usage: copymac [OPTIONS] <DIRECTION>",
    "",
    "Arguments:",
    "  <DIRECTION>",
    "          Direction to copy",
    "",
    "          Possible values:",
    "          - push: Copy from this checkout into the guest folder",
    "          - pull: Copy from the guest folder into this checkout",
    "",
    "Options:",
    "  -v, --verbose",
    "          Enable debug logging",
    "",
    "      --dry-run",
    "          Preview changes without executing (dry-run)",
    "",
    "  -h, --help",
    "          Print help (see a summary with '-h')",
    "",
    "  -V, --version",
    "          Print version"]

/-- The help of the command that extracts constants. -/
def extract : String :=
  page [
    "Command-line tools for copying sources to and from a classic Mac OS guest",
    "",
    "Usage: extract-constants [OPTIONS] <FILE.h>...",
    "",
    "Arguments:",
    "  <FILE.h>...  Header files to read (Script.h, TextCommon.h)",
    "",
    "Options:",
    "  -o, --output-dir <DIR>  Directory to write CSV files into [default: .]",
    "  -v, --verbose           Enable debug logging",
    "  -h, --help              Print help",
    "  -V, --version           Print version"]

/-- The version of the command that copies. -/
def copyVersion : String := page ["copymac 0.1.0"]

/-- The version of the command that extracts constants. -/
def extractVersion : String := page ["extract-constants 0.1.0"]

end GuestSync.Command.Help
