import PromptScript.Params

/-!
# API calls

A call names an endpoint of a service or a reference kind, and may carry a payload. Nothing makes
the call; it is recorded for the host.
-/

namespace PromptScript

/-- What is called. -/
inductive ApiTarget where
  /-- An endpoint of a service. -/
  | service (owner endpoint : Text)
  /-- A reference kind. -/
  | reference (kind : Text)
  deriving DecidableEq, Repr

/-- The written form of a target. -/
def ApiTarget.render : ApiTarget → Text
  | .service owner endpoint => owner ++ '.' :: endpoint
  | .reference kind => '@' :: kind

/-- A call and its payload. -/
structure ApiCall where
  /-- What is called. -/
  target : ApiTarget
  /-- The payload as written. -/
  payload : Text
  /-- The keyed view of the payload. -/
  params : Params
  deriving DecidableEq

namespace ApiCall

/-- Why a text is no call. -/
inductive Problem where
  /-- The at sign has no kind after it. -/
  | noKind
  /-- The target is neither an endpoint nor a reference kind. -/
  | badTarget (target : Text)
  /-- Something other than a payload follows the target. -/
  | noPayload (rest : Text)
  deriving DecidableEq, Repr

/-- The problem in words. -/
def Problem.message : Problem → Text
  | .noKind => "CALL API needs a reference kind after '@'".toList
  | .badTarget target =>
    "CALL API target '".toList ++ target ++ "' is not 'service.endpoint' or '@kind'".toList
  | .noPayload rest => "Expected 'WITH <payload>', got '".toList ++ rest ++ ['\'']

/-- The target that a word names. -/
def target? : Text → Except Problem ApiTarget
  | ['@'] => .error .noKind
  | '@' :: kind => .ok (.reference kind)
  | word =>
    match Text.splitFirst? (· == '.') word with
    | some (c :: owner, d :: endpoint) => .ok (.service (c :: owner) (d :: endpoint))
    | _ => .error (.badTarget word)

/-- The payload that the text after a target gives. -/
def payload? (rest : Text) : Except Problem Text :=
  if rest.isEmpty then .ok []
  else
    match Text.splitWord? "WITH".toList rest with
    | some ([], payload) => .ok payload
    | _ => .error (.noPayload rest)

/-- What stands between the braces of a payload, or all of it if it has no braces around it. -/
def payloadBody (payload : Text) : Text :=
  ((Text.dropStart? ['{'] payload).bind (Text.dropLast? '}')).getD payload

/-- The call that the text after its keyword states. -/
def ofText (text : Text) : Except Problem ApiCall := do
  let text := Text.trim text
  let (word, rest) := match Text.splitFirst? Text.isSpace text with
    | some (word, rest) => (word, Text.trim rest)
    | none => (text, [])
  let target ← target? word
  let payload ← payload? rest
  return ⟨target, payload, Params.ofBody (payloadBody payload)⟩

/-- The written form of a call. -/
def render (call : ApiCall) : Text :=
  "CALL API ".toList ++ call.target.render ++
    (if call.payload.isEmpty then [] else " WITH ".toList ++ call.payload)

end ApiCall

end PromptScript
