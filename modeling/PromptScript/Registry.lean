import PromptScript.Diagnostic
import PromptScript.Json.Value
import PromptScript.Params
import PromptScript.Text.WordClass

/-!
# Registries

A registry maps reference kinds to the resolvers that fulfil them. A resolver is a function of a
request and of the requests it was given before, so it may keep any state. A kind without a
resolver of its own falls back to its namespace.
-/

namespace PromptScript

/-- Whether a text can be the kind of a reference. -/
def isValidKind (kind : Text) : Bool :=
  !kind.isEmpty && kind.all Text.isKindChar

/-- All that a resolver sees of a reference. -/
structure Request where
  /-- The kind of the reference. -/
  kind : Text
  /-- Its target, if any. -/
  target : Option Text
  /-- Its body. -/
  body : Text
  /-- The keyed view of its body. -/
  params : Params
  /-- The members of the context. -/
  context : List (Text × Json)

/-- Why a resolver failed: messages from the outermost to the innermost. -/
structure ResolverError where
  /-- The messages. -/
  messages : List Text
  deriving DecidableEq, Repr

/-- The error on one line. -/
def ResolverError.render (e : ResolverError) : Text :=
  Text.join ": ".toList e.messages

/-- A resolver answers a request, given the requests it answered before, the latest first. -/
abbrev Resolver := List Request → Request → Except ResolverError Json

/-- The warning that no resolver serves a kind. -/
def Diagnostic.unresolved (kind : Text) : Diagnostic :=
  .warning "W_UNRESOLVED_REF".toList
    ("No capability registered for '@".toList ++ kind ++ ['\''])

/-- Resolvers by reference kind. -/
structure Registry where
  /-- The resolver of each kind. -/
  resolvers : Dictionary Resolver

namespace Registry

/-- The registry without resolvers. -/
def empty : Registry := ⟨.empty⟩

/-- Why a resolver is not registered. -/
inductive Problem where
  /-- The kind has a resolver. -/
  | duplicate (kind : Text)
  /-- The text is no kind. -/
  | invalidKind (kind : Text)
  deriving DecidableEq, Repr

/-- The problem in words. -/
def Problem.message : Problem → Text
  | .duplicate kind => "a resolver is already registered for '".toList ++ kind ++ ['\'']
  | .invalidKind kind => ['\''] ++ kind ++ "' is not a valid reference kind".toList

/-- Registers a resolver for a kind that has none. -/
def register (r : Registry) (kind : Text) (resolver : Resolver) : Except Problem Registry :=
  if !isValidKind kind then .error (.invalidKind kind)
  else if r.resolvers.contains kind then .error (.duplicate kind)
  else .ok ⟨r.resolvers.insert kind resolver⟩

/-- The registered kind that serves a kind: the kind itself, or else its namespace. -/
def serving? (r : Registry) (kind : Text) : Option Text :=
  if r.resolvers.contains kind then some kind
  else
    (Text.splitFirst? (· == ':') kind).bind fun parts =>
      if r.resolvers.contains parts.1 then some parts.1 else none

/-- The resolver that serves a kind. -/
def lookup (r : Registry) (kind : Text) : Option Resolver :=
  (r.serving? kind).bind r.resolvers.get?

/-- Whether a resolver serves a kind. -/
def contains (r : Registry) (kind : Text) : Bool :=
  (r.lookup kind).isSome

/-- The registered kinds, sorted. -/
def kinds (r : Registry) : List Text :=
  r.resolvers.keys

/-- The number of registered kinds. -/
def size (r : Registry) : Nat :=
  r.resolvers.size

/-- Whether no kind is registered. -/
def isEmpty (r : Registry) : Bool :=
  r.resolvers.isEmpty

/-- The hexadecimal digits of a code point. -/
def hexDigits (n : Nat) : Text :=
  Nat.toDigits 16 n

/-- A kind in quotes. Kinds hold no quotes or control characters, but may hold characters that
print as part of the one before them, which are written by their number. -/
def quoteKind (kind : Text) : Text :=
  let escape (c : Char) : Text :=
    if Text.isGraphemeExtend c then "\\u\x7b".toList ++ hexDigits c.toNat ++ ['}'] else [c]
  '"' :: kind.flatMap escape ++ ['"']

/-- A one-line description of the registry. -/
def describe (r : Registry) : Text :=
  "CapabilityRegistry \x7b kinds: [".toList ++
    Text.join ", ".toList (r.kinds.map quoteKind) ++ "] \x7d".toList

end Registry

/-- The requests that each registered kind has answered, the latest first. -/
abbrev Calls := Dictionary (List Request)

/-- The requests answered before by a registered kind. -/
def Calls.of (calls : Calls) (kind : Text) : List Request :=
  (Dictionary.get? calls kind).getD []

end PromptScript
