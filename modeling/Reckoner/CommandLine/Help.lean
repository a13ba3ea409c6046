import Reckoner.CommandLine.Invocation

/-!
# Help

The pages that explain the program and its commands.
-/

namespace Reckoner.CommandLine

def version : String := "distcalc 0.1.0"

def programPage : List String :=
  ["Distributed arithmetic expression evaluator",
    "",
    "Usage: distcalc [OPTIONS] <COMMAND>",
    "",
    "Commands:",
    "  serve  Run the orchestrator HTTP server",
    "  agent  Run a worker agent against an orchestrator",
    "  eval   Evaluate an expression in-process and print the result",
    "  help   Print this message or the help of the given subcommand(s)",
    "",
    "Options:",
    "  -d, --debug            Enable debug logging",
    "  -c, --config <CONFIG>  Config file (default: ~/.distcalc/distcalc.toml)",
    "  -h, --help             Print help",
    "  -V, --version          Print version",
    "",
    "ENVIRONMENT:",
    "    DISTCALC_DEBUG=1     Enable debug logging (alternative to --debug)"]

def servePage : List String :=
  ["Run the orchestrator HTTP server",
    "",
    "Usage: distcalc serve [OPTIONS]",
    "",
    "Options:",
    "      --addr <ADDR>      Listen address (overrides orchestrator.addr)",
    "  -d, --debug            Enable debug logging",
    "  -c, --config <CONFIG>  Config file (default: ~/.distcalc/distcalc.toml)",
    "  -h, --help             Print help"]

def agentPage : List String :=
  ["Run a worker agent against an orchestrator",
    "",
    "Usage: distcalc agent [OPTIONS]",
    "",
    "Options:",
    "  -d, --debug              Enable debug logging",
    "      --url <URL>          Orchestrator base URL (overrides agent.orchestrator_url)",
    "  -c, --config <CONFIG>    Config file (default: ~/.distcalc/distcalc.toml)",
    "  -w, --workers <WORKERS>  Number of concurrent workers (overrides agent.computing_power)",
    "  -h, --help               Print help"]

def evalPage : List String :=
  ["Evaluate an expression in-process and print the result",
    "",
    "Usage: distcalc eval [OPTIONS] <EXPRESSION>",
    "",
    "Arguments:",
    "  <EXPRESSION>  The arithmetic expression, e.g. \"(2+3)*4\"",
    "",
    "Options:",
    "  -d, --debug            Enable debug logging",
    "      --direct           Evaluate the parse tree directly, without tasks",
    "  -c, --config <CONFIG>  Config file (default: ~/.distcalc/distcalc.toml)",
    "      --timed            Honor the configured operation times",
    "  -h, --help             Print help"]

def pageOfHelp : List String :=
  ["Print this message or the help of the given subcommand(s)",
    "",
    "Usage: distcalc help [COMMAND]...",
    "",
    "Arguments:",
    "  [COMMAND]...  Print help for the subcommand(s)"]

def Page.lines : Page → List String
  | .program => programPage
  | .serve => servePage
  | .agent => agentPage
  | .eval => evalPage
  | .help => pageOfHelp

def Page.text (page : Page) : String := String.join (page.lines.map (· ++ "\n"))

end Reckoner.CommandLine
