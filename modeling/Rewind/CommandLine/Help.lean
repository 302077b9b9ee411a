import Rewind.CommandLine.Usage

/-!
What the program tells about its command line, and what it answers to one that cannot be read.
-/
namespace Rewind.CommandLine

def help : String := String.intercalate "\n" [
  "Benchmark a function repeatedly from identical memory state",
  "",
  "USAGE:",
  "    snapbench [OPTIONS] <SUBCOMMAND>",
  "",
  "OPTIONS:",
  "    -n, --iterations <iterations>                  Number of timed iterations [default: 10]",
  "        --cpu <cpu>                                Pin the benchmark to this CPU",
  "        --target-stack-size <target-stack-size>    Stack size for the target [default: 8M]",
  "        --arm-timeout-ms <arm-timeout-ms>          Milliseconds to arm in [default: 5000]",
  "        --verify-restore                           Verify memory after every restore",
  "        --no-rearm                                 Do not protect restored pages again",
  "    -q, --quiet-target                             Drop what the target prints",
  "        --json                                     Print the report as JSON",
  "    -h, --help                                     Print this text",
  "    -V, --version                                  Print the version",
  "",
  "SUBCOMMANDS:",
  "    run <target> [args]    Benchmark one of the built-in targets",
  "    maps                   Print memory regions and whether each would be monitored",
  "    targets                List the built-in targets",
  ""]

def version : String := "snapbench 0.1.0\n"

def UsageError.complaint (e : UsageError) : String :=
  match e with
  | .helpAsked | .versionAsked => ""
  | .unknownArgument => "error: unexpected argument\n"
  | .unknownSubcommand => "error: unknown subcommand\n"
  | .misspeltSubcommand => "error: unknown subcommand, and a known one is similar\n"
  | .missingSubcommand => help
  | .missingTarget => "error: the target is missing\n"
  | .repeated => "error: an option is given more than once\n"
  | .invalidValue .. => e.message?.getD "" ++ "\n"

end Rewind.CommandLine
