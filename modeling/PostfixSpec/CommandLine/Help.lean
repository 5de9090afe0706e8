/-!
# Help texts

What the command line says about itself.
-/

namespace PostfixSpec.CommandLine

def programName : String := "run_spec.py"

/-- The line that shows all switches. -/
def usage : String :=
  "usage: " ++ programName ++ " [-h] (-f FORMULA | -p PROPERTY) [-t NAME] [-v] [--debug]\n"

def help : String := usage ++ "
Evaluate a boolean formula under a truth assignment

options:
  -h, --help            show this help message and exit
  -f FORMULA, --formula FORMULA
                        Formula text
  -p PROPERTY, --property PROPERTY
                        Path to a file containing the formula
  -t NAME, --true NAME  Leaf name that holds (repeatable); all other names are
                        false
  -v, --verbose         Enable verbose output
  --debug               Enable debug output (overrides --verbose)

Examples:
  python run_spec.py -f \"ready & !(failed | paused)\" -t ready
  python run_spec.py -p property.spec -t ready -t paused
  python run_spec.py -f \"p | q\" --debug

Formula syntax:
  !  not      &  and      |  or      ( )  grouping
  true, false constants; any other identifier is a leaf name
        \n"

/-- What is said of arguments that make no sense. -/
def usageFailure (message : String) : String :=
  usage ++ programName ++ ": error: " ++ message ++ "\n"

end PostfixSpec.CommandLine
