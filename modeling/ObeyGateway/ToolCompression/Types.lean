import ObeyGateway.Lib.JsonPrint

/-!
# Tools and the context of the stages

`tool_compression/types.rs`. A stage rewrites the list of tools and books in the context what it saved. Of
the context only the fields are kept that the stages here read or write.
-/

namespace ObeyGateway.ToolCompression

structure ToolDefinition where
  raw : Json
  name : String
  contentHash : UInt64
deriving DecidableEq

inductive CompressionLevel
  | low
  | medium
  | high
  | max
deriving DecidableEq

structure ProviderCaps where
  supportsRef : Bool
  supportsNullable : Bool

structure CompressionContext where
  level : CompressionLevel
  providerCaps : ProviderCaps
  tokensSaved : Nat
  strategiesApplied : List String

/-- How `serde_json` writes numbers, and the `DefaultHasher` of the texts. -/
structure Encoder where
  numbers : Json.NumberText
  hash : List Char → UInt64

namespace Encoder
variable (encoder : Encoder)

def toText (value : Json) : List Char := value.print encoder.numbers

def textTokens (text : List Char) : Nat := (String.ofList text).utf8ByteSize / 4

def estimateTokens (value : Json) : Nat := textTokens (encoder.toText value)

end Encoder

def CompressionContext.book (ctx : CompressionContext) (strategy : String) (saved : Nat) :
    CompressionContext :=
  { ctx with
    tokensSaved := ctx.tokensSaved + saved
    strategiesApplied := if 0 < saved then ctx.strategiesApplied ++ [strategy] else ctx.strategiesApplied }

def parametersPath : List String := ["function", "parameters"]

/-- `/function/name`, or the empty name -/
def functionName (raw : Json) : String := ((raw.pointer ["function", "name"]).bind Json.asStr).getD ""

/-- An entry of the request's `tools` as the middleware takes it in. -/
def ToolDefinition.fromRaw (encoder : Encoder) (raw : Json) : ToolDefinition :=
  { raw, name := functionName raw, contentHash := encoder.hash (encoder.toText raw) }

def ToolDefinition.Named (tool : ToolDefinition) : Prop := tool.name = functionName tool.raw

end ObeyGateway.ToolCompression
