import ReactorCausality.Federation.Policy
import ReactorCausality.Rendering.Artifacts

/-!
The arguments of the command. Arguments are read from left to right and the first one that is wrong
decides; a request for the version or for help ends the reading at once. An option takes its value
behind an equals sign or from the next argument, and no option may be given twice.
-/
namespace ReactorCausality

/-- What is printed. -/
inductive EmitStage where
  /-- Priorities, then control reactions. -/
  | all
  | priorities
  | controls
  | graph
  | dot
  | json
  | buildInfo
  deriving DecidableEq, Repr

def EmitStage.words : List (String × EmitStage) :=
  [("all", all), ("priorities", priorities), ("controls", controls), ("graph", graph),
    ("dot", dot), ("json", json), ("build-info", buildInfo)]

/-- The words for the forms of priorities and control reactions. -/
def Target.words : List (String × Target) :=
  [("text", text), ("json", json)]

def Coordination.words : List (String × Coordination) :=
  [(word centralized, centralized), (word decentralized, decentralized)]

/-- What a command line gives; what it does not give is absent. -/
structure Arguments where
  program : Option String := none
  federation : Option String := none
  emit : Option EmitStage := none
  target : Option Target := none
  coordination : Option Coordination := none
  networkLatency : Option TimeValue := none
  defaultOffset : Option TimeValue := none
  isVerbose : Bool := false
  deriving DecidableEq, Repr

/-- What is wrong with a command line. -/
inductive ArgumentFault where
  | unknown (argument : String)
  | repeated (option : String)
  | missingValue (option : String)
  /-- The option takes no value. -/
  | surplusValue (option : String)
  | badValue (option value : String)
  | missingProgram
  deriving DecidableEq, Repr

def ArgumentFault.message : ArgumentFault → String
  | unknown argument => s!"unexpected argument '{argument}'"
  | repeated option => s!"--{option} is given more than once"
  | missingValue option => s!"--{option} needs a value"
  | surplusValue option => s!"--{option} takes no value"
  | badValue option value => s!"invalid value '{value}' for {option}"
  | missingProgram => "no program is given"

/-- What a command line asks for. -/
inductive Request where
  | version
  | help
  | analysis (program : String) (arguments : Arguments)
  deriving DecidableEq, Repr

namespace Arguments

/-- A value that is not there yet, or the fault that it is repeated. -/
def once {α : Type} (option : String) : Option α → Except ArgumentFault Unit
  | none => .ok ()
  | some _ => .error (.repeated option)

def choose {α : Type} (option value : String) (words : List (String × α)) :
    Except ArgumentFault α :=
  match words.lookup value with
  | some chosen => .ok chosen
  | none => .error (.badValue option value)

/-- The path that an argument gives, which is not empty. -/
def path (option value : String) : Except ArgumentFault String :=
  if value.isEmpty then .error (.badValue option value) else .ok value

def time (option value : String) : Except ArgumentFault TimeValue :=
  (TimeValue.parse value).mapError fun _ => .badValue option value

def valued : List String :=
  ["federation", "emit", "target", "coordination", "network-latency", "default-stp"]

/-- Takes an option with its value. -/
def take (arguments : Arguments) (option value : String) : Except ArgumentFault Arguments := do
  if option = "federation" then
    once option arguments.federation
    return { arguments with federation := some (← path option value) }
  else if option = "emit" then
    once option arguments.emit
    return { arguments with emit := some (← choose option value EmitStage.words) }
  else if option = "target" then
    once option arguments.target
    return { arguments with target := some (← choose option value Target.words) }
  else if option = "coordination" then
    once option arguments.coordination
    return { arguments with coordination := some (← choose option value Coordination.words) }
  else if option = "network-latency" then
    once option arguments.networkLatency
    return { arguments with networkLatency := some (← time option value) }
  else if option = "default-stp" then
    once option arguments.defaultOffset
    return { arguments with defaultOffset := some (← time option value) }
  else .error (.unknown option)

/-- Takes the path of the program. -/
def takeProgram (arguments : Arguments) (value : String) : Except ArgumentFault Arguments := do
  match arguments.program with
  | some _ => .error (.unknown value)
  | none => return { arguments with program := some (← path "program" value) }

/-- The request that arguments make when all of them have been read. -/
def finish (arguments : Arguments) : Except ArgumentFault Request :=
  match arguments.program with
  | some program => .ok (.analysis program arguments)
  | none => .error .missingProgram

/-- Reads the arguments behind two dashes, none of which is an option. -/
def readPlain (arguments : Arguments) : List String → Except ArgumentFault Request
  | [] => arguments.finish
  | argument :: rest => do (← arguments.takeProgram argument).readPlain rest

/-- An argument, as far as its form tells. -/
inductive Form where
  /-- Two dashes alone. -/
  | separator
  /-- A long option, with the value behind its equals sign if it has one. -/
  | long (option : String) (value : Option String)
  /-- A letter behind a single dash. -/
  | short (letter : Char)
  | plain
  deriving DecidableEq, Repr

/-- The form of an argument. A dash alone is no option. -/
def form (argument : String) : Form :=
  match argument.toList with
  | ['-', '-'] => .separator
  | '-' :: '-' :: rest =>
    let option := String.ofList (rest.takeWhile fun c => c != '=')
    match rest.dropWhile fun c => c != '=' with
    | [] => .long option none
    | _ :: value => .long option (some (String.ofList value))
  | '-' :: letter :: _ => .short letter
  | _ => .plain

/-- Reads arguments, of which some have been taken already. -/
def read (arguments : Arguments) : List String → Except ArgumentFault Request
  | [] => arguments.finish
  | argument :: rest =>
    match form argument with
    | .separator => arguments.readPlain rest
    | .plain => do (← arguments.takeProgram argument).read rest
    | .short letter =>
      if letter = 'V' then .ok .version
      else if letter = 'h' then .ok .help
      else .error (.unknown argument)
    | .long option value =>
      if valued.contains option then
        match value, rest with
        | some value, rest => do (← arguments.take option value).read rest
        | none, value :: rest =>
          if form value = .plain then do (← arguments.take option value).read rest
          else .error (.missingValue option)
        | none, [] => .error (.missingValue option)
      else if option = "verbose" || option = "version" || option = "help" then
        if value.isSome then .error (.surplusValue option)
        else if option = "version" then .ok .version
        else if option = "help" then .ok .help
        else if arguments.isVerbose then .error (.repeated option)
        else { arguments with isVerbose := true }.read rest
      else .error (.unknown argument)

end Arguments

/-- What a command line asks for. -/
def Request.ofArguments (arguments : List String) : Except ArgumentFault Request :=
  Arguments.read {} arguments

end ReactorCausality
