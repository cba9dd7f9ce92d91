import ClockTree.Table

/-! The command line. The program takes no input: it prints the table of the built-in
limits, its help or its version. -/
namespace ClockTree

inductive Command where
  | table
  | help
  | version
  /-- An argument that the program does not take. -/
  | refused (argument : String)
  deriving DecidableEq, Repr

namespace Command

/-- The first argument decides. A letter of a cluster such as `-Vx` acts as soon as it is
read. A lone `--` only ends the options, and what follows it is never an option. -/
def ofArguments : List String → Command
  | [] | ["--"] => table
  | "--" :: argument :: _ => refused argument
  | "--help" :: _ => help
  | "--version" :: _ => version
  | argument :: _ => match argument.toList with
    | '-' :: 'h' :: _ => help
    | '-' :: 'V' :: _ => version
    | _ => refused argument

end Command

def helpText : String :=
  "Enumerate legal PLL, CPU and RAM clock configurations\n" ++
  "\n" ++
  "Usage: pllscan\n" ++
  "\n" ++
  "Options:\n" ++
  "  -h, --help     Print help\n" ++
  "  -V, --version  Print version\n"

structure Outcome where
  exit : UInt32
  stdout : String
  stderr : String := ""
  deriving DecidableEq, Repr

def SearchError.message : SearchError → String
  | limits cause => cause.message
  | fault cause => cause.message

def Command.run : Command → Outcome
  | help => ⟨0, helpText, ""⟩
  | version => ⟨0, "pllscan 0.1.0\n", ""⟩
  | refused argument => ⟨2, "", "error: unexpected argument '" ++ argument ++ "' found\n"⟩
  | table => match Table.ofLimits .standard with
    | .ok clocks => ⟨0, clocks.text, ""⟩
    | .error cause => ⟨1, "", "error: " ++ cause.message ++ "\n"⟩

end ClockTree
