import PromptScript.CommandLine.Program
import PromptScript.Form.Render
import PromptScript.Http
import PromptScript.Main
import PromptScript.Proofs.Adapters.Agreement
import PromptScript.Proofs.Blocks.Ledger
import PromptScript.Proofs.Checks
import PromptScript.Proofs.Composition.Call
import PromptScript.Proofs.Composition.Comment
import PromptScript.Proofs.Composition.Compose
import PromptScript.Proofs.Composition.Invisible
import PromptScript.Proofs.Engine.Acceptance
import PromptScript.Proofs.Engine.Location
import PromptScript.Proofs.Execution.Composition
import PromptScript.Proofs.Json.RoundTrip
import PromptScript.Proofs.Lexing.Leading
import PromptScript.Proofs.Lexing.Munch
import PromptScript.Proofs.Lexing.Starting
import PromptScript.Proofs.Lexing.Tiling
import PromptScript.Proofs.Params.Parts
import PromptScript.Proofs.Params.Quoted
import PromptScript.Proofs.Parsing.Agreement
import PromptScript.Proofs.Parsing.Bodies
import PromptScript.Proofs.Parsing.Closing
import PromptScript.Proofs.Parsing.Kinds
import PromptScript.Proofs.Parsing.LineStart
import PromptScript.Proofs.Parsing.Recognition
import PromptScript.Proofs.Parsing.References
import PromptScript.Proofs.Parsing.Spans
import PromptScript.Proofs.Parsing.Targets
import PromptScript.Proofs.Registry
import PromptScript.Proofs.RoundTrip.Calls
import PromptScript.Proofs.RoundTrip.Canonical
import PromptScript.Proofs.RoundTrip.Law
import PromptScript.Proofs.Splicing.Buffers
import PromptScript.Proofs.Splicing.Splice
import PromptScript.Proofs.Validation.Growth
