import PromptScript.CommandLine.Program

/-!
# Entry point

Reading arguments, variables, files and standard input, and writing what a call of the program
gives.
-/

namespace PromptScript.Main

open CommandLine

/-- The reason why a file was not read. Its code may be negated. -/
def problemOf : IO.Error → ReadProblem
  | .noFileOrDirectory .. => .missing
  | .inappropriateType _ code details =>
    if code = 20 ∨ code = 0 - 20 then .notDirectory
    else if code = 21 ∨ code = 0 - 21 then .directory
    else .other details.toList
  | e => .other e.toString.toList

/-- Reads a file. -/
def readFile : FileReader IO := fun file => do
  try return .ok (← IO.FS.readBinFile (String.ofList file)).toList
  catch e => return .error (problemOf e)

/-- The variables of the environment. -/
def readEnvironment : IO Environment := do
  let bytes ← try (·.toList) <$> IO.FS.readBinFile "/proc/self/environ" catch _ => pure []
  let entries := bytes.splitOn 0
  return entries.filterMap fun entry => (Text.ofUtf8? entry).bind (Text.splitFirst? (· == '='))

/-- The nearest file of variables, in the working directory or in one above it. -/
def readVariableFile : Nat → Text → IO (Option (List UInt8))
  | 0, _ => return none
  | depth + 1, directory => do
    match ← readFile (directory ++ ".env".toList) with
    | .ok bytes => return some bytes
    | .error _ => readVariableFile depth ("../".toList ++ directory)

/-- The bytes of a line, and whether the input ends with them. -/
partial def readLine (input : IO.FS.Stream) (read : List UInt8) : IO (List UInt8 × Bool) := do
  match (← input.read 1).toList with
  | [] => return (read.reverse, true)
  | b :: _ => if b = 10 then return (read.reverse, false) else readLine input (b :: read)

/-- Answers the lines of an input. -/
partial def answerLines (e : Engine) (input output : IO.FS.Stream) : IO UInt32 := do
  let (bytes, ended) ← readLine input []
  match Text.ofUtf8? bytes with
  | none =>
    (← IO.getStderr).putStr (String.ofList (Failure.line .input))
    return 1
  | some line =>
    let (response, e) := Rpc.handleLine e line
    if let some text := response then
      output.putStrLn (String.ofList text)
      output.flush
    if ended then return 0 else answerLines e input output

/-- Carries out what a call comes to, and gives the exit code. -/
def perform (e : Engine) : Task → IO UInt32
  | .finish outcome => do
    (← IO.getStdout).putStr (String.ofList outcome.output)
    (← IO.getStderr).putStr (String.ofList outcome.errors)
    return UInt32.ofNat outcome.code
  | .answerLines => do answerLines e (← IO.getStdin) (← IO.getStdout)
  | .serve address => do
    (← IO.getStderr).putStrLn ("Error: Failed to bind to " ++ String.ofList address)
    return 1

end PromptScript.Main

/-- Runs the program. -/
def main (args : List String) : IO UInt32 := do
  let depth := (← IO.currentDir).components.length
  let surroundings : PromptScript.CommandLine.Surroundings IO :=
    ⟨← PromptScript.Main.readEnvironment, ← PromptScript.Main.readVariableFile (depth + 1) [],
      PromptScript.Main.readFile⟩
  let engine := PromptScript.Engine.ofRegistry .empty
  PromptScript.Main.perform engine (← surroundings.call engine (args.map String.toList))
