/-!
# The texts of the command

The help text, the usage line and the description of the build.
-/

namespace SheetFormula.CommandLine

/-- The version of the command. -/
def version : String := "0.1.0"

/-- The profile of the build. -/
def buildProfile : String := "development"

/-- What the build was made from. -/
def buildInfo : String := "efp_tokenizer " ++ version ++ " (" ++ buildProfile ++ " profile)"

/-- The usage of a command of this name. -/
def usage (program : String) : String :=
  "Usage: " ++ program ++ " [--pretty|--render|--json] [--strict] [FORMULA...]"

/-- The lines of the help text of a command of this name. -/
def helpLines (program : String) : List String :=
  ["EFP formula tokenizer v" ++ version,
    "Splits spreadsheet formulas into typed tokens",
    "Build: " ++ buildInfo,
    "",
    "USAGE:",
    "    " ++ program ++ " [options] [FORMULA...]        # Tokenize the given formulas",
    "    " ++ program ++ " [options] < formulas.txt      # One formula per line",
    "",
    "OPTIONS:",
    "    --help              Show this help message",
    "    --pretty            One indented line per token (default)",
    "    --render            Rebuild the formula from its tokens",
    "    --json              Tokens, error flag and metrics as JSON",
    "    --strict            Exit non-zero when a formula is malformed",
    "    --config PATH       Load preferences from a TOML file",
    "    --diagnostics       Print the logging configuration to stderr",
    "",
    "ENVIRONMENT:",
    "    EFP_LOGGING_ENABLE_CONSOLE=true   Print diagnostics to stderr",
    "    EFP_LOGGING_MIN_LEVEL=debug       Diagnostic verbosity",
    "    EFP_LEXICAL_TRACK_OPERATORS=true  Count operator usage in --json output",
    "",
    "EXAMPLES:",
    "    " ++ program ++ " '=SUM(B5:B15 A7:D7)'",
    "    " ++ program ++ " --json '=IF(A1>0,\"yes\",\"no\")'"]

end SheetFormula.CommandLine
