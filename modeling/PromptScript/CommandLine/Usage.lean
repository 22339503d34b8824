import PromptScript.Text.Split

/-!
# Commands and their options

The commands of the program, the options that each of them takes, and the help on them.
-/

namespace PromptScript.CommandLine

/-- An option; each of them takes a value. -/
inductive Flag where
  /-- The file of settings. -/
  | config
  /-- The file that holds the context of a run. -/
  | ctx
  /-- The host to serve on. -/
  | host
  /-- The port to serve on. -/
  | port
  deriving DecidableEq, Repr

namespace Flag

/-- The name of an option. -/
def name : Flag → Text
  | .config => "config".toList
  | .ctx => "ctx".toList
  | .host => "host".toList
  | .port => "port".toList

/-- The letter that may stand for an option. -/
def letter? : Flag → Option Char
  | .port => some 'p'
  | _ => none

/-- What an option is for. -/
def summary : Flag → Text
  | .config => "Path to config file (overrides default search)".toList
  | .ctx => "JSON object file handed to resolvers as context".toList
  | .host => "Host to bind (overrides config)".toList
  | .port => "Port to bind (overrides config)".toList

end Flag

/-- What the program can be told to do. -/
inductive Verb where
  /-- Validate a script. -/
  | validate
  /-- Compile a script. -/
  | compile
  /-- Run a script. -/
  | run
  /-- Answer requests over HTTP. -/
  | serve
  /-- Answer requests on lines of standard input. -/
  | rpc
  deriving DecidableEq, Repr

namespace Verb

/-- All verbs. -/
def all : List Verb := [.validate, .compile, .run, .serve, .rpc]

/-- The name of a verb. -/
def name : Verb → Text
  | .validate => "validate".toList
  | .compile => "compile".toList
  | .run => "run".toList
  | .serve => "serve".toList
  | .rpc => "rpc".toList

/-- The verb of a name. -/
def ofName? (name : Text) : Option Verb :=
  all.find? fun verb => verb.name == name

/-- What a verb does. -/
def summary : Verb → Text
  | .validate => "Check a script for missing, duplicate or empty sections".toList
  | .compile => "Compile a script to its JSON form (best effort, diagnostics included)".toList
  | .run => "Validate, compile and execute a script".toList
  | .serve => "Serve the HTTP API".toList
  | .rpc => "Serve line-delimited JSON RPC on stdin/stdout".toList

/-- What the file that a verb takes is for, if it takes one. -/
def fileSummary? : Verb → Option Text
  | .validate => some "Script to validate".toList
  | .compile => some "Script to compile".toList
  | .run => some "Script to run".toList
  | .serve => none
  | .rpc => none

/-- The options that may stand after a verb. -/
def flags : Verb → List Flag
  | .run => [.config, .ctx]
  | .serve => [.config, .host, .port]
  | _ => [.config]

end Verb

/-- What help is about. -/
inductive Topic where
  /-- The program. -/
  | program
  /-- A verb. -/
  | verb (verb : Verb)
  /-- Help itself. -/
  | help
  deriving DecidableEq, Repr

/-- The name of the program. -/
def programName : Text := "lmtagscript".toList

/-- Rows of two columns. The second column begins two places past the longest entry of the
first. -/
def columns (rows : List (Text × Text)) : Text :=
  let width := (rows.map fun row => row.1.length).foldl max 0
  rows.flatMap fun row =>
    "  ".toList ++ row.1 ++ List.replicate (width + 2 - row.1.length) ' ' ++ row.2 ++ ['\n']

/-- Rows under a heading. -/
def titled (heading : String) (rows : List (Text × Text)) : Text :=
  heading.toList ++ [':', '\n'] ++ columns rows

/-- The row of an option. -/
def Flag.row (flag : Flag) : Text × Text :=
  let letter := match flag.letter? with
    | some c => ['-', c, ',', ' ']
    | none => List.replicate 4 ' '
  (letter ++ "--".toList ++ flag.name ++ " <".toList ++ flag.name.map Char.toUpper ++ ['>'],
    flag.summary)

/-- The row of the option that asks for help. -/
def helpRow : Text × Text :=
  ("-h, --help".toList, "Print help".toList)

/-- What help on help is. -/
def helpSummary : Text :=
  "Print this message or the help of the given subcommand(s)".toList

/-- A help text: what its topic does, how it is called, and its parts. -/
def page (summary call : Text) (parts : List Text) : Text :=
  Text.join ['\n']
    ((summary ++ ['\n']) :: ("Usage: ".toList ++ programName ++ ' ' :: call ++ ['\n']) :: parts)

/-- The rows of options. -/
def optionRows (flags : List Flag) : Text :=
  titled "Options" (flags.map Flag.row ++ [helpRow])

/-- The help on a topic. -/
def Topic.text : Topic → Text
  | .program =>
    page "LMTagScript - validate, compile and run TASK/ACTION/GOAL prompt scripts".toList
      "[OPTIONS] <COMMAND>".toList
      [titled "Commands"
        (Verb.all.map (fun verb => (verb.name, verb.summary)) ++ [("help".toList, helpSummary)]),
       optionRows [.config]]
  | .verb v =>
    match v.fileSummary? with
    | some summary =>
      page v.summary (v.name ++ " [OPTIONS] <FILE>".toList)
        [titled "Arguments" [("<FILE>".toList, summary)], optionRows v.flags]
    | none => page v.summary (v.name ++ " [OPTIONS]".toList) [optionRows v.flags]
  | .help =>
    page helpSummary "help [COMMAND]...".toList
      [titled "Arguments" [("[COMMAND]...".toList, "Print help for the subcommand(s)".toList)]]

end PromptScript.CommandLine
