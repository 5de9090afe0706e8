import PostfixSpec.Evaluator
import PostfixSpec.Leaf
import PostfixSpec.Text.Literal

/-!
# Functional notation

Specifications as text in which connectives are written as functions of their operands and leaves
as literals. Texts stand between double quotes: quotes, backslashes and control characters are escaped,
and every other character stands for itself.
-/

namespace PostfixSpec

namespace Text

/-- One character inside double quotes: six of them have an escape of their own, other control
characters are written by number. -/
def quotedChar (c : Char) : List Char :=
  if c = '"' then ['\\', '"']
  else if c = '\\' then ['\\', '\\']
  else if c = '\n' then ['\\', 'n']
  else if c = '\r' then ['\\', 'r']
  else if c = '\t' then ['\\', 't']
  else if c = '\x0c' then ['\\', 'f']
  else if c = '\x08' then ['\\', 'b']
  else if c.toNat < 0x20 then '\\' :: 'u' :: hex 4 c.toNat
  else [c]

/-- A text between double quotes. -/
def quoted (s : String) : String :=
  String.ofList ('"' :: s.toList.flatMap quotedChar ++ ['"'])

end Text

def Leaf.literal : Leaf → String
  | text s => Text.quoted s
  | bool true => "true"
  | bool false => "false"
  | int i => toString i
  | null => "null"

def Connective.functionName : Connective → String
  | conjunction => "and"
  | disjunction => "or"

/-- Answers with the functional notation of each node. -/
def Evaluator.functionalText : Evaluator Id Leaf String where
  name := "Text"
  leaf value := value.literal
  negate operand := "!" ++ operand
  join connective operands :=
    connective.functionName ++ "(" ++ ", ".intercalate operands ++ ")"

end PostfixSpec
