import PromptScript.Settings.Environment
import PromptScript.Settings.Toml

/-!
# Settings

Where to serve and what to log. Settings come from defaults, from a file, from variables of the
environment and from the variable `PORT`; each of these goes over those before it.
-/

namespace PromptScript

/-- Why a file cannot be read. -/
inductive ReadProblem where
  /-- There is no such file. -/
  | missing
  /-- A part of the path that is not a directory has something after it. -/
  | notDirectory
  /-- It is a directory. -/
  | directory
  /-- Another reason, in words. -/
  | other (reason : Text)
  deriving DecidableEq, Repr

/-- The reason in words. -/
def ReadProblem.message : ReadProblem → Text
  | .missing => "No such file or directory (os error 2)".toList
  | .notDirectory => "Not a directory (os error 20)".toList
  | .directory => "Is a directory (os error 21)".toList
  | .other reason => reason

/-- How a file is read. -/
abbrev FileReader (m : Type → Type) := Text → m (Except ReadProblem (List UInt8))

/-- Why a text is not a port number. -/
inductive PortProblem where
  /-- It is empty. -/
  | empty
  /-- It holds a character that is not a digit. -/
  | notDigit
  /-- The number is too large. -/
  | tooLarge
  deriving DecidableEq, Repr

/-- The reason in words. -/
def PortProblem.message : PortProblem → Text
  | .empty => "cannot parse integer from empty string".toList
  | .notDigit => "invalid digit found in string".toList
  | .tooLarge => "number too large to fit in target type".toList

/-- The greatest port number. -/
def maxPort : Nat := 65535

/-- The port number that digits write after a number that is read already. -/
def portFrom (n : Nat) : Text → Except PortProblem Nat
  | [] => .ok n
  | c :: rest =>
    if !c.isDigit then .error .notDigit
    else
      let n := n * 10 + (c.toNat - '0'.toNat)
      if maxPort < n then .error .tooLarge else portFrom n rest

/-- The port number that a text writes; a plus sign may stand before it. -/
def portOfText (t : Text) : Except PortProblem Nat :=
  match t with
  | [] => .error .empty
  | ['+'] => .error .notDigit
  | '+' :: rest => portFrom 0 rest
  | _ => portFrom 0 t

/-- Where to serve and what to log. -/
structure Settings where
  /-- The host to serve on. -/
  host : Text
  /-- The port to serve on. -/
  port : Nat
  /-- What to log. -/
  filter : Text
  deriving DecidableEq, Repr

namespace Settings

/-- The address to serve on. -/
def address (s : Settings) : Text :=
  s.host ++ ':' :: Text.ofNat s.port

/-- Why there are no settings. -/
inductive Problem where
  /-- The variable `PORT` is not a port number. -/
  | port (value : Text) (reason : PortProblem)
  /-- The file is missing or not well formed. -/
  | file
  /-- A setting is missing or of a wrong type. -/
  | setting
  deriving DecidableEq, Repr

/-- What is wrong, in words. -/
def Problem.message : Problem → Text
  | .port value _ => "PORT must be a port number, got '".toList ++ value ++ ['\'']
  | .file => "Failed to load configuration".toList
  | .setting => "Invalid configuration".toList

/-- What is wrong and the reason for it. -/
def Problem.chain (problem : Problem) : List Text :=
  match problem with
  | .port _ reason => [problem.message, reason.message]
  | _ => [problem.message]

/-- The settings when nothing else is said. -/
def defaults : Setting :=
  .table
    [("server".toList,
      .table [("host".toList, .text "0.0.0.0".toList), ("port".toList, .int 3000)]),
     ("logging".toList, .table [("filter".toList, .text "info".toList)])]

/-- The port that the variable `PORT` asks for. -/
def portVariable (env : Environment) : Except Problem (Option Nat) :=
  match env.get? "PORT".toList with
  | none => .ok none
  | some value =>
    match portOfText value with
    | .ok port => .ok (some port)
    | .error reason => .error (.port value reason)

/-- A tree with the port that the variable `PORT` asks for. -/
def putPort (root : Setting) : Option Nat → Setting
  | none => root
  | some port => Setting.putAt [.name "server".toList, .name "port".toList] (.int port) root

/-- The settings of all sources as one tree. -/
def assemble (file env : List (Text × Setting)) (port : Option Nat) : Setting :=
  putPort ((defaults.putKeyed file).putKeyed env) port

/-- The settings that a tree holds. -/
def ofSetting? (root : Setting) : Option Settings := do
  let server ← root.field? "server" 0
  let logging ← root.field? "logging" 1
  let host ← (← server.field? "host" 0).toText?
  let port ← (← server.field? "port" 1).toNat?
  let filter ← (← logging.field? "filter" 0).toText?
  if port ≤ maxPort then some ⟨host, port, filter⟩ else none

/-- The settings in a file that was found or not. Only a file that is asked for must be there. -/
def fileSettings? (required : Bool) : Option (List UInt8) → Option (List (Text × Setting))
  | some bytes => Toml.ofText? (Text.ofUtf8Lossy bytes)
  | none => if required then none else some []

/-- The settings from the variables and a file that was found or not. -/
def ofSources (env : Environment) (file : Option (List UInt8)) : Except Problem Settings := do
  let port ← portVariable env
  match fileSettings? (env.get? Environment.fileVariable).isSome file with
  | none => .error .file
  | some entries =>
    match ofSetting? (assemble entries env.settings port) with
    | none => .error .setting
    | some settings => .ok settings

/-- The file of settings when none is asked for. -/
def defaultFile : Text := "lmtagscript.toml".toList

/-- The file of settings. -/
def fileName (env : Environment) : Text :=
  (env.get? Environment.fileVariable).getD defaultFile

variable {m : Type → Type} [Monad m]

/-- Finds a file by its name, or by its name with `.toml` after it. -/
def find? (read : FileReader m) (name : Text) : m (Option (List UInt8)) := do
  if name.isEmpty then return none
  match ← read name with
  | .ok bytes => return some bytes
  | .error _ =>
    match ← read (Text.trimEndChar '/' name ++ ".toml".toList) with
    | .ok bytes => return some bytes
    | .error _ => return none

/-- Loads the settings. -/
def load (read : FileReader m) (env : Environment) : m (Except Problem Settings) := do
  return ofSources env (← find? read (fileName env))

end Settings

end PromptScript
