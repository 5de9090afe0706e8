import PostfixSpec.CommandLine.Arguments
import PostfixSpec.CommandLine.Help
import PostfixSpec.Console
import PostfixSpec.Formula.Parser
import PostfixSpec.Property
import PostfixSpec.Report

/-!
# Running the command line

A run reads its formula, compiles it, evaluates it under the names that hold and answers with an exit
code. Everything it says goes through the console, configured by the options. Files come from a
reader, so a run is a function of its arguments and of what the reader answers.
-/

namespace PostfixSpec.CommandLine

/-- A failure that nothing is prepared for. -/
inductive UnexpectedError where
  | pathless
  | run (error : Report.RunError)
  deriving DecidableEq

def UnexpectedError.message : UnexpectedError → String
  | pathless => "expected str, bytes or os.PathLike object, not list"
  | run error => error.message

/-- How a run ends. The error output also traces an unexpected error back to its origin; such a
trace names places in the program and no behaviour, so only the error is kept. -/
structure Outcome where
  exitCode : Nat
  output : Output
  unexpected : Option UnexpectedError
  deriving DecidableEq

inductive Exit where
  | success
  | formulaError
  | propertyError
  | unexpected (error : UnexpectedError)
  deriving DecidableEq

def Exit.code : Exit → Nat
  | success => 0
  | formulaError => 2
  | propertyError => 3
  | unexpected _ => 5

def Exit.unexpected? : Exit → Option UnexpectedError
  | unexpected error => some error
  | _ => none

/-- A formula text, and how messages show it. -/
structure FormulaText where
  shown : String
  text : String
  deriving DecidableEq

/-- Why a source gives no formula text. -/
inductive SourceError where
  | property (error : PropertyError)
  | pathless
  deriving DecidableEq

/-- The formula text of a source. A dropped text counts as an empty one, which messages show as an
empty list. -/
def Source.read (reader : File.Reader) : Source → Except SourceError FormulaText
  | formula (some text) => .ok ⟨text, text⟩
  | formula none => .ok ⟨"[]", ""⟩
  | property (some path) =>
    match Property.read reader (File.Path.ofString path) with
    | .ok text => .ok ⟨text, text⟩
    | .error error => .error (.property error)
  | property none => .error .pathless

/-- Reports a failure that nothing is prepared for. -/
def stumble (error : UnexpectedError) : Traced Exit := do
  Traced.log .error ("Unexpected error: " ++ error.message)
  return .unexpected error

def runFormula (formula : FormulaText) (names : List (Option String)) : Traced Exit := do
  match ← (Formula.parseShown formula.shown formula.text).run with
  | .error error => do
    Traced.log .error ("Formula parsing error: " ++ error.message)
    return .formulaError
  | .ok e => do
    Report.formulaLoaded formula.shown e.describe
    match ← (Report.run (.encoded e) names).run with
    | .error error => stumble (.run error)
    | .ok _ => return .success

def execute (reader : File.Reader) (options : Options) : Traced Exit :=
  match options.source.read reader with
  | .error (.property error) => do
    Traced.log .error ("Property file error: " ++ error.message)
    return .propertyError
  | .error .pathless => stumble .pathless
  | .ok formula => runFormula formula options.names

/-- Runs a command line. -/
def run (args : List String) (reader : File.Reader) : Outcome :=
  match readArguments args with
  | .error .help => ⟨0, ⟨help, ""⟩, none⟩
  | .error (.usage error) => ⟨2, ⟨"", usageFailure error.message⟩, none⟩
  | .ok options =>
    let console := Console.initial.configure options.debug options.verbose
    let said := execute reader options
    ⟨said.value.code, console.writeAll said.events, said.value.unexpected?⟩

end PostfixSpec.CommandLine
