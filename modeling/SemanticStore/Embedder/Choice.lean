import SemanticStore.Embedder.Remote
import SemanticStore.Embedder.Trigram

/-!
# Choosing an embedder

The embedder that settings name.
-/

namespace SemanticStore

/-- What there is outside of the program for embedders to use. -/
structure Network where
  /-- the address of the model server that the environment gives -/
  serverUrl : Option String
  server : Server

/-- A network in which no server can be reached. -/
def Network.down : Network := ⟨none, fun _ => .unreachable "connection refused"⟩

/-- The embedder that settings name. A remote one is only had if its server answers as it should. -/
def EmbedderSettings.connect (s : EmbedderSettings) (network : Network) :
    Action Exchange Embedder := do
  .lift s.validate
  if s.provider = "trigram" ∨ s.provider = "mock" then
    return Trigram.embedder s.dimensions s.normalize
  else if s.provider = "ollama" then
    let r := Remote.ofSettings network.serverUrl s
    r.verify network.server
    .of fun x => (.ok (r.embedder network.server x), x)
  else
    .fail <| .configuration <|
      "Unknown embedding provider: '" ++ s.provider
        ++ "'. Supported providers: trigram, ollama"

end SemanticStore
