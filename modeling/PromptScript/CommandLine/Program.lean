import PromptScript.CommandLine.Arguments
import PromptScript.Json.Record
import PromptScript.Json.Report
import PromptScript.Rpc
import PromptScript.Settings.Basic
import PromptScript.Settings.VariableFile

/-!
# The program

What a call of the program writes and the code it ends with. Settings are loaded before a command
does anything, so a problem with them is reported first. Files are read through a reader that is
given, in the order in which a command needs them.
-/

namespace PromptScript.CommandLine

/-- Why a command fails. -/
inductive Failure where
  /-- There are no settings. -/
  | settings (problem : Settings.Problem)
  /-- A file cannot be read. -/
  | unreadable (file : Text) (problem : ReadProblem)
  /-- A file does not hold text. -/
  | notText (file : Text)
  /-- A file does not hold a JSON object. -/
  | notObject (file : Text)
  /-- The script is not run. -/
  | refused (refusal : Refusal)
  /-- A line of standard input is not text. -/
  | input

/-- The report of bytes that are not text. -/
def notTextMessage : Text := "stream did not contain valid UTF-8".toList

/-- The report of a file that cannot be read. -/
def unreadMessage (file : Text) : Text :=
  "Failed to read ".toList ++ file

/-- What failed and the reason for it. -/
def Failure.messages : Failure → List Text
  | .settings problem => problem.chain
  | .unreadable file problem => [unreadMessage file, problem.message]
  | .notText file => [unreadMessage file, notTextMessage]
  | .notObject file => [file ++ " must contain a JSON object".toList]
  | .refused refusal => [refusal.message]
  | .input => [Rpc.readFailure, notTextMessage]

/-- A failure as a line. -/
def Failure.line (failure : Failure) : Text :=
  "Error: ".toList ++ Text.join ": ".toList failure.messages ++ ['\n']

/-- How a call of the program ends. -/
structure Outcome where
  /-- The exit code. -/
  code : Nat
  /-- What is written to standard output. -/
  output : Text
  /-- What is written to standard error. -/
  errors : Text
  deriving DecidableEq, Repr

namespace Outcome

/-- The end of a call that writes a value. -/
def printed (j : Json) : Outcome :=
  ⟨0, Json.pretty j ++ ['\n'], []⟩

/-- The end of a call that fails. -/
def failed (failure : Failure) : Outcome :=
  ⟨1, [], failure.line⟩

/-- The end of a call whose arguments name no command. -/
def ofDetour : Detour → Outcome
  | .help topic => ⟨0, topic.text, []⟩
  | .misuse => ⟨2, [], Topic.program.text⟩

/-- The end of a call that answers the lines of an input. -/
def ofInput (e : Engine) (input : List UInt8) : Outcome :=
  let (lines, complete) := Rpc.serve e input
  let output := lines.flatMap fun line => line ++ ['\n']
  if complete then ⟨0, output, []⟩ else ⟨1, output, Failure.line .input⟩

end Outcome

/-- What surrounds a call of the program. -/
structure Surroundings (m : Type → Type) where
  /-- The variables of the environment. -/
  environment : Environment
  /-- The file of variables, if there is one. -/
  variableFile : Option (List UInt8)
  /-- How files are read. -/
  read : FileReader m

/-- What a call of the program comes to. -/
inductive Task where
  /-- It ends. -/
  | finish (outcome : Outcome)
  /-- It answers the lines of standard input. -/
  | answerLines
  /-- It answers requests over HTTP at an address. -/
  | serve (address : Text)

variable {m : Type → Type} [Monad m]

namespace Surroundings

/-- The variables for a call. A file of settings that is asked for goes over the variable that
names one. -/
def environmentFor (s : Surroundings m) (config : Option Text) : Environment :=
  let env := match config with
    | some file => s.environment.set Environment.fileVariable file
    | none => s.environment
  match s.variableFile with
  | some bytes => VariableFile.load env bytes
  | none => env

/-- Loads the settings for a call. -/
def settings (s : Surroundings m) (config : Option Text) : ExceptT Failure m Settings := do
  match ← (Settings.load s.read (s.environmentFor config) : m _) with
  | .ok settings => return settings
  | .error problem => throw (.settings problem)

/-- Reads the text of a file. -/
def readText (s : Surroundings m) (file : Text) : ExceptT Failure m Text := do
  match ← (s.read file : m _) with
  | .error problem => throw (.unreadable file problem)
  | .ok bytes =>
    match Text.ofUtf8? bytes with
    | some t => return t
    | none => throw (.notText file)

/-- Reads the context of a run; it is empty if no file is given. -/
def readContext (s : Surroundings m) : Option Text → ExceptT Failure m (List (Text × Json))
  | none => return []
  | some file => do
    let t ← s.readText file
    match (Json.Tree.ofText? t).bind (Json.Tree.members? Json.unescape? Json.maxDepth) with
    | some members => return members
    | none => throw (.notObject file)

/-- Carries a command out with an engine. -/
def perform (s : Surroundings m) (e : Engine) (settings : Settings) :
    Command → ExceptT Failure m Task
  | .validate file => do return .finish (.printed (e.validate (← s.readText file)).toJson)
  | .compile file => do return .finish (.printed (e.compile (← s.readText file)).toJson)
  | .run file context => do
    let source ← s.readText file
    let context ← s.readContext context
    match e.run source context with
    | (.ok run, _) => return .finish (.printed run.toJson)
    | (.error refusal, _) => throw (.refused refusal)
  | .serve host port =>
    let chosen : Settings :=
      { settings with host := host.getD settings.host, port := port.getD settings.port }
    return .serve chosen.address
  | .rpc => return .answerLines

/-- What a call with arguments comes to. -/
def call (s : Surroundings m) (e : Engine) (args : List Text) : m Task := do
  match Invocation.read args with
  | .error detour => return .finish (.ofDetour detour)
  | .ok invocation =>
    let performed : ExceptT Failure m Task := do
      s.perform e (← s.settings invocation.config) invocation.command
    match ← performed.run with
    | .ok task => return task
    | .error failure => return .finish (.failed failure)

end Surroundings

end PromptScript.CommandLine
