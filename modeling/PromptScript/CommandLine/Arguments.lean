import PromptScript.CommandLine.Usage
import PromptScript.Settings.Value

/-!
# Arguments of the program

Arguments are read from left to right. An option stands before or after the verb or the file that
it goes with, at most once at each of these places; its value follows it, or is joined to it by an
equals sign. After two dashes nothing is an option. What asks for help ends the reading.
-/

namespace PromptScript.CommandLine

/-- A verb with what it needs. -/
inductive Command where
  /-- Validate a script. -/
  | validate (file : Text)
  /-- Compile a script. -/
  | compile (file : Text)
  /-- Run a script, with a context if a file is given. -/
  | run (file : Text) (context : Option Text)
  /-- Answer requests over HTTP, on a host and a port if these are given. -/
  | serve (host : Option Text) (port : Option Nat)
  /-- Answer requests on lines of standard input. -/
  | rpc
  deriving DecidableEq, Repr

/-- Why arguments name no command. -/
inductive Detour where
  /-- Help is asked for. -/
  | help (topic : Topic)
  /-- The arguments are not well formed. -/
  | misuse
  deriving DecidableEq, Repr

/-- An argument by its form. -/
inductive Word where
  /-- An option, and its value if that is joined to it. -/
  | flag (flag : Flag) (value : Option Text)
  /-- The option that asks for help. -/
  | help
  /-- Two dashes. -/
  | dashes
  /-- An option that is not known. -/
  | unknown
  /-- Something else. -/
  | operand (text : Text)
  deriving DecidableEq, Repr

/-- The option of a name with a joined value or without one. -/
def Word.ofLong (flags : List Flag) (name : Text) (value : Option Text) : Word :=
  if name = "help".toList then if value.isSome then .unknown else .help
  else
    match flags.find? fun flag => flag.name == name with
    | some found => .flag found value
    | none => .unknown

/-- The option of a letter with what is joined to it. -/
def Word.ofLetter (flags : List Flag) (letter : Char) (joined : Text) : Word :=
  if letter = 'h' then .help
  else
    match flags.find? fun flag => flag.letter? == some letter with
    | none => .unknown
    | some found =>
      match joined with
      | [] => .flag found none
      | '=' :: value => .flag found (some value)
      | value => .flag found (some value)

/-- An argument by its form, where some options may stand. -/
def Word.ofText (flags : List Flag) (t : Text) : Word :=
  match t with
  | ['-', '-'] => .dashes
  | '-' :: '-' :: named =>
    match Text.splitFirst? (· == '=') named with
    | some (name, value) => .ofLong flags name (some value)
    | none => .ofLong flags named none
  | '-' :: letter :: joined => .ofLetter flags letter joined
  | _ => .operand t

/-- Whether an argument can be the value of the option before it. -/
def isValue (t : Text) : Bool :=
  t == ['-'] || t.head? != some '-'

/-- The port number that the value of an option writes. -/
def portValue? (t : Text) : Option Nat :=
  (Setting.intOfText? t).bind fun n => if 0 ≤ n ∧ n ≤ 65535 then some n.toNat else none

/-- Whether an option takes a value. -/
def Flag.accepts (flag : Flag) (value : Text) : Bool :=
  match flag with
  | .config => true
  | .ctx => !value.isEmpty
  | .host => true
  | .port => (portValue? value).isSome

/-- What is given after a verb. -/
structure Given where
  /-- The options with their values. -/
  values : List (Flag × Text)
  /-- The file. -/
  file : Option Text
  deriving DecidableEq, Repr

namespace Given

/-- Nothing. -/
def empty : Given := ⟨[], none⟩

/-- The value of an option. -/
def value? (g : Given) (flag : Flag) : Option Text :=
  g.values.lookup flag

/-- Adds an option that is not given yet. -/
def addFlag (g : Given) (flag : Flag) (value : Text) : Except Detour Given :=
  if (g.value? flag).isSome ∨ !flag.accepts value then .error .misuse
  else .ok { g with values := g.values ++ [(flag, value)] }

/-- Adds the file that a verb takes, if it is not given yet. -/
def addFile (g : Given) (verb : Verb) (file : Text) : Except Detour Given :=
  if verb.fileSummary?.isNone ∨ g.file.isSome ∨ file.isEmpty then .error .misuse
  else .ok { g with file := some file }

/-- Adds the arguments after a verb. -/
def addAll (g : Given) (verb : Verb) : List Text → Except Detour Given
  | [] => .ok g
  | t :: rest =>
    match Word.ofText verb.flags t with
    | .help => .error (.help (.verb verb))
    | .unknown => .error .misuse
    | .dashes => rest.foldlM (fun g file => g.addFile verb file) g
    | .operand file => do (← g.addFile verb file).addAll verb rest
    | .flag flag (some value) => do (← g.addFlag flag value).addAll verb rest
    | .flag flag none =>
      match rest with
      | [] => .error .misuse
      | value :: rest =>
        if isValue value then do (← g.addFlag flag value).addAll verb rest
        else .error .misuse

/-- The command of a verb with what is given. -/
def command? (g : Given) : Verb → Option Command
  | .validate => g.file.map .validate
  | .compile => g.file.map .compile
  | .run => g.file.map fun file => .run file (g.value? .ctx)
  | .serve => some (.serve (g.value? .host) ((g.value? .port).bind portValue?))
  | .rpc => some .rpc

end Given

/-- What the program is called for: a command, and the file of settings if one is given. -/
structure Invocation where
  /-- The file of settings. -/
  config : Option Text
  /-- The command. -/
  command : Command
  deriving DecidableEq, Repr

namespace Invocation

/-- Reads the arguments after a verb. An option counts there before it counts elsewhere. -/
def ofVerb (config : Option Text) (verb : Verb) (args : List Text) : Except Detour Invocation := do
  let given ← Given.empty.addAll verb args
  match given.command? verb with
  | some command => .ok ⟨(given.value? .config).or config, command⟩
  | none => .error .misuse

/-- What help is asked for by the arguments after the verb for it. -/
def helpOn : List Text → Detour
  | [] => .help .program
  | [name] =>
    if name = "help".toList then .help .help
    else
      match Verb.ofName? name with
      | some verb => .help (.verb verb)
      | none => .misuse
  | _ => .misuse

/-- Reads arguments, given the file of settings that those before them name. -/
def ofArgs (config : Option Text) : List Text → Except Detour Invocation
  | [] => .error .misuse
  | t :: rest =>
    match Word.ofText [.config] t with
    | .help => .error (.help .program)
    | .operand name =>
      if name = "help".toList then .error (helpOn rest)
      else
        match Verb.ofName? name with
        | some verb => ofVerb config verb rest
        | none => .error .misuse
    | .flag _ (some value) => if config.isSome then .error .misuse else ofArgs (some value) rest
    | .flag _ none =>
      match rest with
      | [] => .error .misuse
      | value :: rest =>
        if isValue value ∧ config = none then ofArgs (some value) rest else .error .misuse
    | .dashes => .error .misuse
    | .unknown => .error .misuse

/-- Reads the arguments of the program. -/
def read (args : List Text) : Except Detour Invocation :=
  ofArgs none args

end Invocation

end PromptScript.CommandLine
