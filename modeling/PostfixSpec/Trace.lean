import PostfixSpec.Evaluator

/-!
# Traces

A traced computation keeps what it has to say beside its value: leveled records for whoever
watches, and plain lines that are part of its output. The events of two computations in a row are
those of the first and then those of the second, also when a failure cuts the second short.
-/

namespace PostfixSpec

/-- How much a record matters. -/
inductive Level where
  | debug
  | info
  | warning
  | error
  deriving DecidableEq

namespace Level

/-- Levels are ordered by number; numbers between and beyond them are levels without a name. -/
def number : Level → Int
  | debug => 10
  | info => 20
  | warning => 30
  | error => 40

def name : Level → String
  | debug => "DEBUG"
  | info => "INFO"
  | warning => "WARNING"
  | error => "ERROR"

def ofNumber? (n : Int) : Option Level :=
  [debug, info, warning, error].find? fun level => level.number == n

/-- The text that reports a number without a level. -/
def unknownMessage (n : Int) : String := s!"{n} is not a valid LogLevel"

@[simp] theorem ofNumber?_number (level : Level) : ofNumber? level.number = some level := by
  cases level <;> rfl

end Level

/-- One thing said: a leveled record, or a line of output that no level holds back. -/
inductive Event where
  | record (level : Level) (message : String)
  | line (text : String)
  deriving DecidableEq

/-- A value and the events on the way to it, in order. -/
structure Traced (α : Type) where
  events : List Event
  value : α

namespace Traced

variable {α β : Type}

instance : Monad Traced where
  pure value := ⟨[], value⟩
  bind x f := ⟨x.events ++ (f x.value).events, (f x.value).value⟩

@[simp] theorem pure_events (a : α) : (pure a : Traced α).events = [] := rfl

@[simp] theorem bind_events (x : Traced α) (f : α → Traced β) :
    (x >>= f).events = x.events ++ (f x.value).events := rfl

@[simp] theorem bind_value (x : Traced α) (f : α → Traced β) :
    (x >>= f).value = (f x.value).value := rfl

instance : LawfulMonad Traced := LawfulMonad.mk' Traced
  (by intro α x; cases x; simp [Functor.map])
  (by intro α β a f; simp [Bind.bind, Pure.pure])
  (by intro α β γ x f g; simp [Bind.bind])

/-- Says something. -/
def say (event : Event) : Traced Unit := ⟨[event], ()⟩

def log (level : Level) (message : String) : Traced Unit := say (.record level message)

end Traced

variable {α : Type}

/-- The message that reports a finished combination of `count` parts. -/
def Encoding.combinedMessage (e : Encoding α) (connective : Connective) (count : Nat) : String :=
  s!"Combined {count} specifications under {connective.recordName}: {e.sizes}"

/-- Joins encodings and reports the result. -/
def Encoding.combineTraced (connective : Connective) (parts : List (Encoding α)) :
    Traced (Encoding α) := do
  let e := combine connective parts
  Traced.log .debug (e.combinedMessage connective parts.length)
  return e

@[simp] theorem Encoding.combineTraced_value (connective : Connective)
    (parts : List (Encoding α)) :
    (combineTraced connective parts).value = combine connective parts := rfl

/-- Joins specifications and reports the result. A composition that fails reports nothing. -/
def Specification.joinTraced (connective : Connective) (specs : List (Specification α)) :
    ExceptT CompositionError Traced (Specification α) := do
  let parts ← ExceptT.mk (pure (operands connective specs))
  let e ← ExceptT.lift (Encoding.combineTraced connective parts)
  return encoded e

/-- The report does not change the result. -/
theorem Specification.joinTraced_value (connective : Connective)
    (specs : List (Specification α)) :
    (joinTraced connective specs).run.value = join connective specs := by
  unfold joinTraced join
  cases operands connective specs <;> rfl

/-- The message that announces an evaluation. -/
def Encoding.announcement (e : Encoding α) (evaluatorName : String) : String :=
  s!"Evaluating specification with {evaluatorName}: {e.ops.length} ops, {e.leaves.length} leafs"

/-- Announces the evaluation of an encoding. -/
def Encoding.announce (e : Encoding α) (evaluatorName : String) : Traced Unit :=
  Traced.log .debug (e.announcement evaluatorName)

/-- Announces the evaluation of a specification. Nothing is said of the zero specification, which
is not evaluated at all. -/
def Specification.announce (spec : Specification α) (evaluatorName : String) : Traced Unit :=
  match spec with
  | .zero => return ()
  | .encoded e => e.announce evaluatorName

end PostfixSpec
