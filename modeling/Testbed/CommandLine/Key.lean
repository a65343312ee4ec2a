/-!
# Options of the command line

The keys of the options with the names under which they are written, and the two texts that explain
them: the usage alone, and the help.
-/

namespace Testbed.CommandLine

/-- The options, in the order in which they are explained. -/
inductive Key where
  | help
  | config
  | component
  | runner
  | runnerConfig
  | failFast
  | parallelism
  | noCapture
  | timeout
  | retries
  | format
  | verbose
deriving DecidableEq, Repr

namespace Key

def all : List Key :=
  [.help, .config, .component, .runner, .runnerConfig, .failFast, .parallelism, .noCapture,
    .timeout, .retries, .format, .verbose]

def names : Key → List String
  | .help => ["-h", "--help"]
  | .config => ["--config"]
  | .component => ["--component"]
  | .runner => ["--runner"]
  | .runnerConfig => ["--runner-config"]
  | .failFast => ["--fail-fast"]
  | .parallelism => ["--parallelism"]
  | .noCapture => ["--no-capture"]
  | .timeout => ["--timeout"]
  | .retries => ["--retries"]
  | .format => ["--format"]
  | .verbose => ["-v", "--verbose"]

/-- The other options are switches. -/
def takesValue : Key → Bool
  | .help | .failFast | .noCapture | .verbose => false
  | _ => true

/-- How a message calls an option. -/
def title (k : Key) : String :=
  "/".intercalate k.names

end Key

/-- Every name with its option. -/
def spellings : List (String × Key) :=
  Key.all.flatMap fun k ↦ k.names.map (·, k)

def keyOf? (name : String) : Option Key :=
  spellings.lookup name

def programName : String := "component-test-runner"

def usageLines : List String :=
  ["usage: component-test-runner [-h] [--config CONFIG] [--component COMPONENT]",
    "                             [--runner RUNNER] [--runner-config RUNNER_CONFIG]",
    "                             [--fail-fast] [--parallelism PARALLELISM]",
    "                             [--no-capture] [--timeout TIMEOUT]",
    "                             [--retries RETRIES] [--format \x7btext,json\x7d] [-v]"]

def optionLines : List String :=
  ["  -h, --help            show this help message and exit",
    "  --config CONFIG       YAML configuration file (default: components.yaml if",
    "                        present)",
    "  --component COMPONENT",
    "                        Component to test; repeat to test several (overrides",
    "                        the config)",
    "  --runner RUNNER       Runner key (cargo, command)",
    "  --runner-config RUNNER_CONFIG",
    "                        JSON configuration for the runner, merged over the",
    "                        config file",
    "  --fail-fast           Skip remaining components after the first failure",
    "  --parallelism PARALLELISM",
    "                        Number of components to test concurrently (default: 1)",
    "  --no-capture          Stream runner output instead of keeping it for the",
    "                        report",
    "  --timeout TIMEOUT     Per-component timeout (e.g., '300', '90s', '5m')",
    "  --retries RETRIES     Retries for a component whose runner could not execute",
    "  --format \x7btext,json\x7d  Final report format on stdout",
    "  -v, --verbose         Enable debug logging"]

def ofLines (ls : List String) : String :=
  String.join (ls.map (· ++ "\n"))

def usage : String :=
  ofLines usageLines

def help : String :=
  ofLines (usageLines ++ ["", "Run the test suite of every project component", "", "options:"] ++
    optionLines)

end Testbed.CommandLine
