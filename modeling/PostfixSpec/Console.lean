import PostfixSpec.Trace

/-!
# The console

Records reach the outside through handlers. A host may have handlers of its own; this library adds
at most one, the console handler, and replaces it whenever it is configured anew. The console
remembers which handler it installed and removes only that one, so the handlers of the host stay
as they were, in the order in which they were added.

A record below the root level goes nowhere. Every other record goes to each handler whose own level
it reaches, and to the error output if it is a warning or worse and there is no handler at all.
-/

namespace PostfixSpec

/-- One way out for records. A handler of the host is known by a number, a console handler by the
serial number it got when it was installed. -/
inductive Handler where
  | host (id : Nat)
  | console (serial : Nat) (level : Level)
  deriving DecidableEq

/-- Whether two handlers are the same object: a level is changed without making a new handler. -/
def Handler.sameAs : Handler → Handler → Bool
  | host a, host b => a == b
  | console a _, console b _ => a == b
  | _, _ => false

/-- Text written to the two outputs. -/
structure Output where
  stdout : String
  stderr : String
  deriving DecidableEq

namespace Output

def empty : Output := ⟨"", ""⟩

instance : Append Output := ⟨fun a b => ⟨a.stdout ++ b.stdout, a.stderr ++ b.stderr⟩⟩

def line (text : String) : Output := ⟨text ++ "\n", ""⟩

def errorLine (text : String) : Output := ⟨"", text ++ "\n"⟩

/-- What is written by several writers in a row. -/
def concat (parts : List Output) : Output := parts.foldr (· ++ ·) empty

end Output

/-- The name of a level by number, for levels below information. -/
def lowLevelName (level : Int) : String :=
  if level = 0 then "NOTSET" else s!"Level {level}"

/-- A record as a console line: the bare message from information on, with the level in front below
it. -/
def formatRecord (level : Int) (message : String) : String :=
  if level ≥ Level.info.number then message
  else if level = Level.debug.number then "[DEBUG] " ++ message
  else "[" ++ lowLevelName level ++ "] " ++ message

/-- Where records go at present. -/
structure Console where
  /-- The least level that is not dropped. -/
  rootLevel : Level
  handlers : List Handler
  /-- The serial number of the console handler installed last and not removed since. -/
  installed : Option Nat
  /-- The serial number for the next console handler. -/
  nextSerial : Nat
  /-- The name of the shared logger, once it has been asked for. -/
  sharedLogger : Option String
  deriving DecidableEq

namespace Console

/-- No handlers, no shared logger, and nothing below warnings. -/
def initial : Console := ⟨.warning, [], none, 0, none⟩

/-- Adds a handler at the end, unless it is there already. -/
def addHandler (c : Console) (handler : Handler) : Console :=
  if c.handlers.any handler.sameAs then c else { c with handlers := c.handlers ++ [handler] }

def removeHandler (c : Console) (serial : Nat) : Console :=
  { c with handlers := c.handlers.filter fun
      | .console s _ => s != serial
      | .host _ => true }

def addHost (c : Console) (id : Nat) : Console := c.addHandler (.host id)

/-- Sets the root level, and the level of the console handler if one is installed. -/
def setLevel (c : Console) (level : Level) : Console :=
  { c with
    rootLevel := level
    handlers := match c.installed with
      | none => c.handlers
      | some serial => c.handlers.map fun
        | .console s old => .console s (if s = serial then level else old)
        | .host id => .host id }

/-- Removes the console handler, if one is installed. The root level stays. -/
def reset (c : Console) : Console :=
  match c.installed with
  | none => c
  | some serial => { c.removeHandler serial with installed := none }

/-- The level that the two flags ask for; the first one wins. -/
def levelOf (debug verbose : Bool) : Level :=
  if debug then .debug else if verbose then .info else .warning

/-- Installs a console handler in place of an earlier one and sets the level for both. -/
def configure (c : Console) (debug verbose : Bool) : Console :=
  let c := c.reset
  let serial := c.nextSerial
  let c := c.addHandler (.console serial .warning)
  { c with installed := some serial, nextSerial := serial + 1 }.setLevel (levelOf debug verbose)

def consoleLevels (c : Console) : List Level :=
  c.handlers.filterMap fun
    | .console _ level => some level
    | .host _ => none

def hosts (c : Console) : List Nat :=
  c.handlers.filterMap fun
    | .host id => some id
    | .console _ _ => none

/-- A logger without a name is the root logger. -/
def loggerName (name : String) : String := if name = "" then "root" else name

/-- The name of the shared logger. The first one who asks names it. -/
def shareLogger (c : Console) (name : String) : String × Console :=
  match c.sharedLogger with
  | some known => (known, c)
  | none => (loggerName name, { c with sharedLogger := some (loggerName name) })

/-- The name that the shared logger gets where nobody chose one. -/
def defaultLoggerName : String := "specifications"

/-- What one handler writes for a record that the root level lets through. -/
def handle (level : Int) (message : String) : Handler → Output
  | .host _ => .empty
  | .console _ own => if own.number ≤ level then .line (formatRecord level message) else .empty

def emit (c : Console) (level : Int) (message : String) : Output :=
  if level < c.rootLevel.number then .empty
  else if c.handlers.isEmpty then
    if level ≥ Level.warning.number then .errorLine message else .empty
  else .concat (c.handlers.map (handle level message))

def write (c : Console) : Event → Output
  | .record level message => c.emit level.number message
  | .line text => .line text

def writeAll (c : Console) (events : List Event) : Output := .concat (events.map c.write)

end Console

end PostfixSpec
