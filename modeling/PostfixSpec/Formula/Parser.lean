import PostfixSpec.Formula.Scan
import PostfixSpec.Leaf
import PostfixSpec.Trace

/-!
# Parsing formulas

The parser reads one token after the other and keeps what is still open: negations, left operands
that wait for their right one, and parentheses. A pending operator is finished when the token behind
its right operand is seen and binds no tighter; negation binds tightest, then conjunction, then
disjunction, and both connectives lean to the left. So the first token that fits nowhere is
reported, whatever follows it, and a combination is made only once its end is certain.
-/

namespace PostfixSpec.Formula

/-- Why a text is no formula. -/
inductive ParseError where
  | illegalCharacter (illegal : Illegal)
  | unexpectedToken (token : Token)
  | unexpectedEnd
  deriving DecidableEq

def ParseError.message : ParseError → String
  | illegalCharacter illegal => "Parse failed: " ++ illegal.message
  | unexpectedToken token =>
    s!"Syntax error near '{token.symbol.text}' (type: {token.symbol.kind}) " ++
      s!"at line {token.line}, position {token.start}"
  | unexpectedEnd => "Syntax error: Unexpected end of formula"

/-- The failure behind a parse error. Only that of the scan is passed on; every other error is the
parser's own. -/
def ParseError.cause : ParseError → Option Illegal
  | illegalCharacter illegal => some illegal
  | _ => none

/-- Something begun and not finished. -/
inductive Frame where
  | negation
  | left (connective : Connective) (operand : Encoding Leaf)
  | group
  deriving DecidableEq

/-- How far the parser is: it wants an operand or holds one, and the open frames, innermost
first. -/
inductive Progress where
  | wanting (frames : List Frame)
  | holding (frames : List Frame) (operand : Encoding Leaf)
  deriving DecidableEq

/-- Finishes the pending operators that bind at least as tight as `loosest`, up to the innermost
open parenthesis. -/
def finish (loosest : Connective) (operand : Encoding Leaf) :
    List Frame → Traced (List Frame × Encoding Leaf)
  | .negation :: frames => finish loosest operand.negate frames
  | .left .conjunction left :: frames => do
    let joined ← Encoding.combineTraced .conjunction [left, operand]
    finish loosest joined frames
  | .left .disjunction left :: frames =>
    match loosest with
    | .conjunction => return (.left .disjunction left :: frames, operand)
    | .disjunction => do
      let joined ← Encoding.combineTraced .disjunction [left, operand]
      finish loosest joined frames
  | frames => return (frames, operand)

/-- Takes one token. A token that cannot continue what was read so far is an error. -/
def Progress.take (progress : Progress) (token : Token) :
    ExceptT ParseError Traced Progress :=
  match progress with
  | wanting frames =>
    match token.symbol with
    | .name value => return holding frames (.leaf (.text value))
    | .constant value => return holding frames (.leaf (.bool value))
    | .negation => return wanting (.negation :: frames)
    | .opening => return wanting (.group :: frames)
    | _ => throw (.unexpectedToken token)
  | holding frames operand =>
    match token.symbol with
    | .connective connective => do
      let (frames, operand) ← ExceptT.lift (finish connective operand frames)
      return wanting (.left connective operand :: frames)
    | .closing => do
      let (frames, operand) ← ExceptT.lift (finish .disjunction operand frames)
      match frames with
      | .group :: frames => return holding frames operand
      | _ => throw (.unexpectedToken token)
    | _ => throw (.unexpectedToken token)

/-- Takes the end of the text. Everything open must be finished by it. -/
def Progress.close (progress : Progress) : ExceptT ParseError Traced (Encoding Leaf) :=
  match progress with
  | wanting _ => throw .unexpectedEnd
  | holding frames operand => do
    let (frames, operand) ← ExceptT.lift (finish .disjunction operand frames)
    match frames with
    | [] => return operand
    | _ => throw .unexpectedEnd

/-- Parses scanned text. An illegal character is reported once all tokens before it fit. -/
def parseScan (scan : Scan) : ExceptT ParseError Traced (Encoding Leaf) := do
  let progress ← scan.tokens.foldlM Progress.take (.wanting [])
  match scan.illegal with
  | some illegal => throw (.illegalCharacter illegal)
  | none => progress.close

/-- What is said on the way out after a parse error. -/
def ParseError.reports : ParseError → List String
  | illegalCharacter illegal =>
    [s!"Illegal character '{illegal.char}' at position {illegal.position}",
      "Unexpected parsing error: " ++ illegal.message,
      "ParseError encountered during formula compilation"]
  | _ => ["Parse error encountered", "ParseError encountered during formula compilation"]

/-- What is said before a parse of a text that messages show as `shown`. -/
def openingReports (shown : String) : List String :=
  ["Compiling formula: " ++ shown, "Parsing formula: " ++ shown]

/-- What is said about the result of a parse. -/
def closingReports : Except ParseError (Encoding Leaf) → List String
  | .ok e =>
    ["Successfully parsed formula into " ++ e.describe, "Formula compiled into " ++ e.describe]
  | .error error => error.reports

def parse (text : String) : Except ParseError (Encoding Leaf) :=
  (parseScan (scan text)).run.value

/-- Everything that is said about a parse: how it starts, the combinations made, and how it ends. -/
def parseEvents (shown text : String) : List Event :=
  (openingReports shown).map (.record .debug) ++ (parseScan (scan text)).run.events ++
    (closingReports (parse text)).map (.record .debug)

/-- Parses a text that messages show as `shown`, and says how it goes. -/
def parseShown (shown text : String) : ExceptT ParseError Traced (Encoding Leaf) :=
  ExceptT.mk ⟨parseEvents shown text, parse text⟩

def parseTraced (text : String) : ExceptT ParseError Traced (Encoding Leaf) := parseShown text text

@[simp] theorem parseTraced_value (text : String) : (parseTraced text).run.value = parse text := rfl

@[simp] theorem parseTraced_events (text : String) :
    (parseTraced text).run.events = parseEvents text text := rfl

end PostfixSpec.Formula
