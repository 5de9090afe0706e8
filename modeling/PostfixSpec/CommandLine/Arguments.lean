import PostfixSpec.CommandLine.Switch
import PostfixSpec.Text.Literal

/-!
# Reading the arguments

The words of a command line are told apart first, so a word never becomes a value once it reads as a
switch. Then they are taken from left to right. Letters without values may share one word; nothing
in that word takes effect before all of it makes sense. Words that belong to no switch are kept
until the end, when they are refused all together; so is everything from the separator `--` on.

A separator attached to a switch as its value is dropped. The switch still counts as given, but with
no value at all.
-/

namespace PostfixSpec.CommandLine

/-- Where the formula text comes from: a text or the path of a file, unless the value was
dropped. -/
inductive Source where
  | formula (given : Option String)
  | property (given : Option String)
  deriving DecidableEq

namespace Source

def switch : Source → Switch
  | formula _ => .formula
  | property _ => .property

end Source

/-- What a run is asked to do. Dropped values stand among the names that hold. -/
structure Options where
  source : Source
  names : List (Option String)
  verbose : Bool
  debug : Bool
  deriving DecidableEq

/-- Why arguments make no sense. -/
inductive UsageError where
  | ambiguous (word : String) (candidates : List Switch)
  | valueExpected (s : Switch)
  | valueIgnored (s : Switch) (attached : String)
  | conflict (later earlier : Switch)
  | sourceMissing
  | unrecognized (words : List String)
  deriving DecidableEq

def UsageError.message : UsageError → String
  | ambiguous word candidates =>
    "ambiguous option: " ++ word ++ " could match " ++ ", ".intercalate (candidates.map Switch.long)
  | valueExpected s => "argument " ++ s.label ++ ": expected one argument"
  | valueIgnored s attached =>
    "argument " ++ s.label ++ ": ignored explicit argument " ++ Text.literal attached
  | conflict later earlier =>
    "argument " ++ later.label ++ ": not allowed with argument " ++ earlier.label
  | sourceMissing =>
    "one of the arguments " ++ Switch.formula.label ++ " " ++ Switch.property.label ++
      " is required"
  | unrecognized words => "unrecognized arguments: " ++ " ".intercalate words

/-- Why there is nothing to run: help was asked for, or the arguments make no sense. -/
inductive Refusal where
  | help
  | usage (error : UsageError)
  deriving DecidableEq

/-- Tells the words of a command line apart. An ambiguous one is refused at once. -/
def readWords : List String → Except UsageError (List (String × Word))
  | [] => .ok []
  | "--" :: rest => .ok (("--" :: rest).map (·, .stray))
  | word :: rest =>
    match Word.read word.toList with
    | .ambiguous candidates => .error (.ambiguous word candidates)
    | kind => do
      let more ← readWords rest
      return (word, kind) :: more

/-- Letters sharing one word: those before the last, the last one, and the text attached to it. -/
structure Cluster where
  before : List Switch
  last : Switch
  attached : Option (List Char)
  deriving DecidableEq

/-- The letters in the text attached to a letter. A letter that takes a value takes the whole rest
of the word. -/
def readCluster (s : Switch) : List Char → Except UsageError Cluster
  | [] => if s.takesValue then .ok ⟨[], s, some []⟩ else .error (.valueIgnored s "")
  | c :: rest =>
    if s.takesValue then .ok ⟨[], s, some (c :: rest)⟩
    else match Switch.ofLetter? c with
      | none => .error (.valueIgnored s (String.ofList (c :: rest)))
      | some next =>
        if rest.isEmpty then .ok ⟨[s], next, none⟩
        else do
          let cluster ← readCluster next rest
          return { cluster with before := s :: cluster.before }

/-- The switches in one word. Text attached to a long name is its value or a mistake. -/
def switchesOf (s : Switch) (byLetter : Bool) : Option (List Char) → Except UsageError Cluster
  | none => .ok ⟨[], s, none⟩
  | some attached =>
    if byLetter then readCluster s attached
    else if s.takesValue then .ok ⟨[], s, some attached⟩
    else .error (.valueIgnored s (String.ofList attached))

/-- What a command line asks for, one thing at a time. -/
inductive Step where
  | flag (s : Switch)
  /-- A switch with its value, which may have been attached to it. -/
  | valued (s : Switch) (attached : Bool) (value : String)
  | extra (word : String)
  /-- A mistake; nothing behind it counts. -/
  | mistake (error : UsageError)
  deriving DecidableEq

/-- The steps for the letters before the last one. -/
def Cluster.flags (cluster : Cluster) : List Step := cluster.before.map .flag

/-- The steps for a word of switches, unless the last one waits for its value. -/
def Cluster.steps? (cluster : Cluster) : Option (List Step) :=
  if cluster.last.takesValue then
    cluster.attached.map fun value =>
      cluster.flags ++ [.valued cluster.last true (String.ofList value)]
  else some (cluster.flags ++ [.flag cluster.last])

/-- The steps that the words of a command line ask for. The switches of the word before may be
waiting for a value. -/
def stepsFrom : Option Cluster → List (String × Word) → List Step
  | some waiting, (value, .value) :: rest =>
    waiting.flags ++ .valued waiting.last false value :: stepsFrom none rest
  | some waiting, _ => [.mistake (.valueExpected waiting.last)]
  | none, [] => []
  | none, (_, .switch s byLetter attached) :: rest =>
    match switchesOf s byLetter attached with
    | .error error => [.mistake error]
    | .ok cluster =>
      match cluster.steps? with
      | some steps => steps ++ stepsFrom none rest
      | none => stepsFrom (some cluster) rest
  | none, (word, _) :: rest => .extra word :: stepsFrom none rest

/-- What is known while the steps are taken. -/
structure Draft where
  source : Option Source
  names : List (Option String)
  verbose : Bool
  debug : Bool
  extras : List String
  deriving DecidableEq

namespace Draft

def initial : Draft := ⟨none, [], false, false, []⟩

/-- Names a source. The last one counts among those of one kind; two kinds exclude each other. -/
def setSource (d : Draft) (source : Source) : Except Refusal Draft :=
  match d.source with
  | some earlier =>
    if earlier.switch = source.switch then .ok { d with source := some source }
    else .error (.usage (.conflict source.switch earlier.switch))
  | none => .ok { d with source := some source }

/-- What a switch is given by its value. -/
def given (attached : Bool) (value : String) : Option String :=
  if attached && value == "--" then none else some value

def take (d : Draft) : Step → Except Refusal Draft
  | .flag .help => .error .help
  | .flag .verbose => .ok { d with verbose := true }
  | .flag .debug => .ok { d with debug := true }
  | .valued .formula attached value => d.setSource (.formula (given attached value))
  | .valued .property attached value => d.setSource (.property (given attached value))
  | .valued .name attached value => .ok { d with names := d.names ++ [given attached value] }
  | .extra word => .ok { d with extras := d.extras ++ [word] }
  | .mistake error => .error (.usage error)
  | .flag _ | .valued _ _ _ => .ok d

/-- What to run once all steps are taken. A missing source is reported before words that belong to
no switch. -/
def options (d : Draft) : Except Refusal Options :=
  match d.source with
  | none => .error (.usage .sourceMissing)
  | some source =>
    if d.extras.isEmpty then .ok ⟨source, d.names, d.verbose, d.debug⟩
    else .error (.usage (.unrecognized d.extras))

end Draft

def takeSteps (d : Draft) (steps : List Step) : Except Refusal Draft := steps.foldlM Draft.take d

def readArguments (args : List String) : Except Refusal Options :=
  match readWords args with
  | .error error => .error (.usage error)
  | .ok words => (takeSteps .initial (stepsFrom none words)).bind Draft.options

end PostfixSpec.CommandLine
