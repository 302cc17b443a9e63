/-!
# Usage and help

The texts that the command line shows about itself.
-/

set_option autoImplicit false

namespace Unqualify.Usage

/-- The name of the program. -/
def program : String := "react-named-imports"

/-- The lines that show the shape of a call. -/
def summaryLines : List String :=
  ["usage: react-named-imports [-h] [--dry-run] [--print] [--diff] [--stdin]",
   "                           [--stdin-language \x7bjavascript,typescript,tsx\x7d]",
   "                           [--extensions EXTENSIONS] [--ignore IGNORE]",
   "                           [--workers WORKERS] [--namespace NAMESPACE]",
   "                           [--module MODULE] [--quote \x7bsingle,double\x7d]",
   "                           [--semicolons | --no-semicolons] [--output-json]",
   "                           [--verbose]",
   "                           [paths ...]"]

/-- The lines that explain the arguments. -/
def detailLines : List String :=
  ["",
   "Rewrite React.X references into named imports from 'react' across",
   "JS/TS/JSX/TSX sources",
   "",
   "positional arguments:",
   "  paths                 Files or directories to transform",
   "",
   "options:",
   "  -h, --help            show this help message and exit",
   "  --dry-run             Do not write files; report what would change",
   "  --print               Print transformed sources to stdout",
   "  --diff                Print a unified diff for every modified file",
   "  --stdin               Read one source unit from stdin and write the result",
   "                        to stdout",
   "  --stdin-language \x7bjavascript,typescript,tsx\x7d",
   "                        Grammar used for --stdin input (default: tsx)",
   "  --extensions EXTENSIONS",
   "                        Comma-separated file extensions to pick up (for",
   "                        example: .ts,.tsx)",
   "  --ignore IGNORE       Directory or file name to skip while walking",
   "                        (repeatable)",
   "  --workers WORKERS     Number of files processed concurrently",
   "  --namespace NAMESPACE",
   "                        Qualifying identifier (default: React)",
   "  --module MODULE       Module imported from (default: react)",
   "  --quote \x7bsingle,double\x7d",
   "                        Quote style for synthesized imports (default: detect)",
   "  --semicolons, --no-semicolons",
   "                        Terminate synthesized imports with ';' (default:",
   "                        detect)",
   "  --output-json         Output the run report as JSON",
   "  --verbose             Enable verbose output"]

/-- Lines, each ended by a line feed. -/
def joinLines (lines : List String) : String :=
  String.join (lines.map (· ++ "\n"))

/-- The shape of a call. -/
def summary : String := joinLines summaryLines

/-- The whole help text. -/
def help : String := joinLines (summaryLines ++ detailLines)

/-- The last line shown to a caller who misused the program. -/
def complaint (message : String) : String :=
  program ++ ": error: " ++ message

end Unqualify.Usage
