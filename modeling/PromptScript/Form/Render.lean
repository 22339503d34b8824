import PromptScript.Form.Basic

/-!
# Rendering

A form is written back as a script: the three sections, the blocks, the calls and then the
references, each on lines of its own.
-/

namespace PromptScript

/-- A line that introduces a branch of a block, and the text of the branch. -/
def Block.branch (heading body : Text) : Text :=
  heading ++ '\n' :: (if body.isEmpty then [] else body ++ ['\n'])

/-- A block as a script. -/
def Block.render (b : Block) : Text :=
  let branches := match b with
    | .conditional condition body otherwise =>
      branch ("IF ".toList ++ condition.render ++ " THEN".toList) body ++
        (if otherwise.isEmpty then [] else branch "ELSE".toList otherwise)
    | .forEach item collection body =>
      branch ("FOR EACH ".toList ++ item ++ " IN ".toList ++ collection ++ " DO".toList) body
    | .onError body => branch "ON ERROR".toList body
  branches ++ "END\n\n".toList

/-- Whether a body inside so many braces closes all of them but one, and never that one. -/
def closesFrom (depth : Nat) : Text → Bool
  | [] => depth == 1
  | c :: rest =>
    if c = '{' then closesFrom (depth + 1) rest
    else if c = '}' then 2 ≤ depth && closesFrom (depth - 1) rest
    else closesFrom depth rest

/-- Whether a body written in braces ends at the last of them. -/
def closesCleanly (body : Text) : Bool :=
  closesFrom 1 body

/-- A reference as a script. A body that would not end at its last brace is left open. -/
def FormReference.render (r : FormReference) : Text :=
  let target := match r.target with
    | some target => ":\"".toList ++ target ++ ['"']
    | none => []
  let close := if closesCleanly r.body then [' ', '}', '\n'] else ['\n']
  '@' :: r.kind ++ target ++ '{' :: ' ' :: r.body ++ close

/-- A section of a form as a script. -/
def Form.renderSection (f : Form) (kind : SectionKind) : Text :=
  kind.keyword ++ ": ".toList ++ f.textOf kind ++ "\n\n".toList

/-- A form as a script. -/
def Form.render (f : Form) : Text :=
  SectionKind.all.flatMap f.renderSection ++ f.blocks.flatMap Block.render ++
    f.apiCalls.flatMap (fun call => call.render ++ ['\n']) ++
    f.references.flatMap FormReference.render

end PromptScript
