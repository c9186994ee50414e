/-
What the command line says about itself.
-/

namespace GnLang.Command

/-- The lines that say how the program is called. -/
def usageLines : List String :=
  ["usage: gnparse [-h] [-s] [-f \x7bgn,json\x7d] [-o OUTFILE] [--targets]",
    "               [--max-depth MAX_DEPTH] [--repl] [--verbose]",
    "               [source]"]

/-- The lines that explain the arguments. -/
def explanationLines : List String :=
  ["positional arguments:",
    "  source                GN file, or raw source (with -s)",
    "",
    "options:",
    "  -h, --help            show this help message and exit",
    "  -s, --string          Interpret source as literal string",
    "  -f \x7bgn,json\x7d, --format \x7bgn,json\x7d",
    "                        Output format (default: gn)",
    "  -o OUTFILE, --out OUTFILE",
    "                        Output to file",
    "  --targets             List FIDL targets and their dependencies instead of",
    "                        printing the AST",
    "  --max-depth MAX_DEPTH",
    "                        Maximum nesting depth (default: 100)",
    "  --repl                Launch the interactive REPL",
    "  --verbose             Enable debug logging"]

/-- Lines as a text. -/
def unlines (lines : List String) : String := String.join (lines.map (· ++ "\n"))

/-- How the program is called. -/
def usageText : String := unlines usageLines

/-- How the program is called, with all its arguments explained. -/
def helpText : String := unlines (usageLines ++ "" :: explanationLines)

end GnLang.Command
