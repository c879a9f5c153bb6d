import VisualNovel.CommandLine.Arguments
import VisualNovel.Configuration.Basic

/-
  What the program says about itself.
-/

namespace VisualNovel.CommandLine

open VisualNovel.Configuration (programName)

/-- The name of the program with its version. -/
def versionLine : String := programName ++ " 0.2.0"

/-- The line that shows how the program is called. -/
def usageLine (arguments : String) : String := "Usage: " ++ programName ++ " " ++ arguments

/-- What the configuration file of an option is. -/
def configLine : String :=
  "Configuration file (defaults to the layered " ++ programName ++ ".toml lookup)"

/-- The lines of help about the program. -/
def programHelp : List String :=
  [ "Play and check table-driven visual novel scenarios",
    "",
    usageLine "[OPTIONS] <COMMAND>",
    "",
    "Commands:",
    "  run    Play a scenario headlessly, printing what the player would see",
    "  check  Compile scripts and report labels and authoring errors",
    "  help   Print this message or the help of the given subcommand(s)",
    "",
    "Options:",
    "  -v, --verbose    Enable verbose logging",
    "      --json-logs  Emit logs as JSON lines",
    "  -h, --help       Print help",
    "  -V, --version    Print version" ]

/-- The lines of help about playing a scenario. -/
def runHelp : List String :=
  [ "Play a scenario headlessly, printing what the player would see",
    "",
    usageLine "run [OPTIONS] --script <SCRIPTS>... --label <LABEL>",
    "",
    "Options:",
    "      --script <SCRIPTS>...      Script tables to load (.csv or .tsv)",
    "  -v, --verbose                  Enable verbose logging",
    "      --json-logs                Emit logs as JSON lines",
    "      --label <LABEL>            Label to start at, with or without the leading '*'",
    "      --page <PAGE>              Page within the label to resume at [default: 0]",
    "      --choices <CHOICES>        Selection picks to answer with, in order (e.g. 0,1,0)",
    "      --gallery <GALLERY>        Play as this scene-gallery scene",
    "      --config <CONFIG>          " ++ configLine,
    "      --history <HISTORY>        Read-history JSON file, loaded before and saved after the run",
    "      --asset-root <ASSET_ROOT>  Directory asset paths are resolved against [default: .]",
    "  -h, --help                     Print help" ]

/-- The lines of help about checking scripts. -/
def checkHelp : List String :=
  [ "Compile scripts and report labels and authoring errors",
    "",
    usageLine "check [OPTIONS] --script <SCRIPTS>...",
    "",
    "Options:",
    "      --script <SCRIPTS>...  Script tables to compile",
    "  -v, --verbose              Enable verbose logging",
    "      --config <CONFIG>      " ++ configLine,
    "      --json-logs            Emit logs as JSON lines",
    "  -h, --help                 Print help" ]

/-- The lines of help about a topic. -/
def Topic.help : Topic → List String
  | program => programHelp
  | run => runHelp
  | check => checkHelp

end VisualNovel.CommandLine
