import SemanticStore.Embedder.Basic
import SemanticStore.Document
import SemanticStore.Settings.Embedder
import SemanticStore.Text.Blank

/-!
# The remote embedder

Asks a model server for each text. What a server does is given by its outcomes, one per request in
the order of the requests. A request that fails is repeated, three requests at most for one text,
but an embedding of the wrong length ends it at once. Blank texts get a zero vector without a
request.
-/

namespace SemanticStore

/-- What a server answers to a request. -/
structure Reply where
  status : Nat
  body : String

/-- What becomes of a request. -/
inductive Outcome where
  | reply (r : Reply)
  /-- the request does not reach a server, for this reason -/
  | unreachable (reason : String)

/-- A server, by the outcome of each request, counted from zero. -/
abbrev Server := Nat → Outcome

structure EmbedRequest where
  url : String
  model : String
  prompt : String

def EmbedRequest.body (r : EmbedRequest) : Json :=
  .object [("model", .string r.model), ("prompt", .string r.prompt)]

/-- What has passed between an embedder and a server. -/
structure Exchange where
  /-- how many requests have been made -/
  attempts : Nat
  /-- the requests that reached the server, oldest first -/
  received : List EmbedRequest

def Exchange.start : Exchange := ⟨0, []⟩

structure Remote where
  baseUrl : String
  model : String
  dimensions : Nat
  normalize : Bool

namespace Remote

/-- How often a request is made for one text at most. -/
def maxAttempts : Nat := 3

def defaultUrl : String := "http://localhost:11434"

def endpoint : String := "/api/embeddings"

/-- The embedder that settings ask for. Its address is the option `base_url`, or the one that the
environment gives, or the default, without slashes at its end. -/
def ofSettings (environmentUrl : Option String) (s : EmbedderSettings) : Remote where
  baseUrl :=
    let url := ((s.option? "base_url").orElse fun _ => environmentUrl).getD defaultUrl
    String.ofList (url.toList.reverse.dropWhile (· = '/')).reverse
  model := s.model
  dimensions := s.dimensions
  normalize := s.normalize

/-! ### Replies -/

/-- The reason phrase that goes with a status. -/
def reasonPhrase : Nat → String
  | 100 => "Continue"
  | 101 => "Switching Protocols"
  | 102 => "Processing"
  | 200 => "OK"
  | 201 => "Created"
  | 202 => "Accepted"
  | 203 => "Non Authoritative Information"
  | 204 => "No Content"
  | 205 => "Reset Content"
  | 206 => "Partial Content"
  | 207 => "Multi-Status"
  | 208 => "Already Reported"
  | 226 => "IM Used"
  | 300 => "Multiple Choices"
  | 301 => "Moved Permanently"
  | 302 => "Found"
  | 303 => "See Other"
  | 304 => "Not Modified"
  | 305 => "Use Proxy"
  | 307 => "Temporary Redirect"
  | 308 => "Permanent Redirect"
  | 400 => "Bad Request"
  | 401 => "Unauthorized"
  | 402 => "Payment Required"
  | 403 => "Forbidden"
  | 404 => "Not Found"
  | 405 => "Method Not Allowed"
  | 406 => "Not Acceptable"
  | 407 => "Proxy Authentication Required"
  | 408 => "Request Timeout"
  | 409 => "Conflict"
  | 410 => "Gone"
  | 411 => "Length Required"
  | 412 => "Precondition Failed"
  | 413 => "Payload Too Large"
  | 414 => "URI Too Long"
  | 415 => "Unsupported Media Type"
  | 416 => "Range Not Satisfiable"
  | 417 => "Expectation Failed"
  | 418 => "I'm a teapot"
  | 421 => "Misdirected Request"
  | 422 => "Unprocessable Entity"
  | 423 => "Locked"
  | 424 => "Failed Dependency"
  | 425 => "Too Early"
  | 426 => "Upgrade Required"
  | 428 => "Precondition Required"
  | 429 => "Too Many Requests"
  | 431 => "Request Header Fields Too Large"
  | 451 => "Unavailable For Legal Reasons"
  | 500 => "Internal Server Error"
  | 501 => "Not Implemented"
  | 502 => "Bad Gateway"
  | 503 => "Service Unavailable"
  | 504 => "Gateway Timeout"
  | 505 => "HTTP Version Not Supported"
  | 506 => "Variant Also Negotiates"
  | 507 => "Insufficient Storage"
  | 508 => "Loop Detected"
  | 510 => "Not Extended"
  | 511 => "Network Authentication Required"
  | _ => "<unknown status code>"

/-- A record with one field. -/
def onlyField? {α : Type} (name : String) (decode : Json.Raw → Option α) (text : String) :
    Option α := do
  let fields ← (← Json.Raw.ofText? text).fields? [name]
  Structured.required fields name decode

def read (r : Remote) (reply : Reply) : Except Fault Embedding :=
  if 200 ≤ reply.status ∧ reply.status < 300 then
    match onlyField? "embedding" Document.embedding? reply.body with
    | none => .error (.embedding "Failed to parse Ollama response: no embedding")
    | some e =>
        if e.length = r.dimensions then .ok (if r.normalize then e.normalize else e)
        else .error (.dimensionMismatch r.dimensions e.length)
  else
    let text := (onlyField? "error" Json.Raw.text? reply.body).getD reply.body
    .error <| .embedding <|
      "Ollama API error (" ++ toString reply.status ++ " " ++ reasonPhrase reply.status ++ "): "
        ++ text

/-! ### Requests -/

/-- Makes one request for a text. -/
def request (r : Remote) (server : Server) (text : String) : Action Exchange Embedding :=
  .of fun x =>
    match server x.attempts with
    | .unreachable reason =>
        (.error (.embedding ("Failed to send request to Ollama: " ++ reason)),
          { x with attempts := x.attempts + 1 })
    | .reply reply =>
        (r.read reply,
          ⟨x.attempts + 1, x.received ++ [⟨r.baseUrl ++ endpoint, r.model, text⟩]⟩)

/-- Whether another request for the same text may help. -/
def worthRetrying : Fault → Bool
  | .dimensionMismatch _ _ => false
  | _ => true

/-- Makes requests for a text until one succeeds or is not worth repeating, `n + 1` at most. -/
def persist (r : Remote) (server : Server) (text : String) : Nat → Action Exchange Embedding
  | 0 => r.request server text
  | n + 1 => .of fun x =>
      match (r.request server text).exec x with
      | (.ok e, x) => (.ok e, x)
      | (.error fault, x) =>
          if worthRetrying fault then (r.persist server text n).exec x else (.error fault, x)

def embedText (r : Remote) (server : Server) (text : String) : Action Exchange Embedding :=
  r.persist server text (maxAttempts - 1)

/-- The embeddings of texts, one after the other, up to the first that fails. -/
def embedTexts (r : Remote) (server : Server) : List String → Action Exchange (List Embedding)
  | [] => return []
  | text :: rest => do
      let e ← if Text.isBlankText text then pure (Embedding.zeros r.dimensions)
        else r.embedText server text
      let more ← r.embedTexts server rest
      return e :: more

/-- Makes sure that the server answers with embeddings of the right length. -/
def verify (r : Remote) (server : Server) : Action Exchange Unit :=
  .of fun x =>
    match (r.embedText server "test connection").exec x with
    | (.ok _, x) => (.ok (), x)
    | (.error (.dimensionMismatch expected actual), x) =>
        (.error <| .embedding <|
          "Ollama model '" ++ r.model ++ "' returned " ++ toString actual
            ++ " dimensions, expected " ++ toString expected, x)
    | (.error _, x) =>
        (.error <| .embedding <|
          "Ollama not available at " ++ r.baseUrl ++ ". Ensure Ollama is running and model '"
            ++ r.model ++ "' is installed. Run: ollama pull " ++ r.model, x)

/-- The remote embedder of a server, after an exchange with it. -/
def embedder (r : Remote) (server : Server) (x : Exchange) : Embedder where
  provider := "ollama"
  model := r.model
  dimensions := r.dimensions
  answer calls texts :=
    let x := calls.foldl (fun x earlier => ((r.embedTexts server earlier).exec x).2) x
    ((r.embedTexts server texts).exec x).1

end Remote

end SemanticStore
