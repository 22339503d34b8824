import PromptScript.Settings.Value

/-!
# Variables of the environment

A variable whose name begins with `LMTAGSCRIPT_`, in any case, is a setting: the rest of its name
is the key, in which two underscores stand between nested names. What looks like a truth value or a
number is one. One variable is left out: it names the file of settings.
-/

namespace PromptScript

/-- The variables of the environment by their names. -/
abbrev Environment := List (Text × Text)

namespace Environment

/-- The value of a variable. -/
def get? (env : Environment) (name : Text) : Option Text :=
  env.lookup name

/-- Sets a variable, in place of the value it had. -/
def set (name value : Text) : Environment → Environment
  | [] => [(name, value)]
  | entry :: rest =>
    if entry.1 = name then (name, value) :: rest else entry :: set name value rest

/-- Sets a variable unless it has a value already. -/
def setNew (env : Environment) (name value : Text) : Environment :=
  if (env.get? name).isSome then env else env.set name value

/-- The variable that names the file of settings. -/
def fileVariable : Text := "LMTAGSCRIPT_CONFIG_PATH".toList

/-- How the names of settings begin, in lower case. -/
def settingMark : Text := "lmtagscript_".toList

/-- A name with two underscores at a time replaced by a point. -/
def nested : Text → Text
  | '_' :: '_' :: rest => '.' :: nested rest
  | c :: rest => c :: nested rest
  | [] => []

/-- The key of the setting that a variable is, if it is one. -/
def key? (name : Text) : Option Text :=
  if name = fileVariable then none
  else (Text.dropStart? settingMark (Text.lower name)).map nested

/-- The value that a text looks like. -/
def settingOf (t : Text) : Setting :=
  let word := Text.lower t
  if word = "true".toList then .bool true
  else if word = "false".toList then .bool false
  else
    match Setting.intOfText? t, Real.ofText? t with
    | some n, _ => .int n
    | none, some x => .real x
    | none, none => .text t

/-- The settings among the variables, by their keys. -/
def settings (env : Environment) : List (Text × Setting) :=
  env.filterMap fun entry => (key? entry.1).map fun key => (key, settingOf entry.2)

end Environment

end PromptScript
