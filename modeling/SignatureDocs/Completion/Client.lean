import SignatureDocs.Completion.Reply
import SignatureDocs.Completion.Url
import SignatureDocs.Log
import SignatureDocs.Settings.Basic
import SignatureDocs.Text.Marked

/-!
Asking a provider for a completion: the request for a prompt, and the text in the answer to it.
-/
namespace SignatureDocs

open SignatureDocs.Text

/-- A request. -/
structure Request where
  url : Url
  headers : List (String × String)
  body : String
deriving DecidableEq, Repr

/-- An answer. -/
structure Response where
  status : Nat
  body : List UInt8
deriving DecidableEq, Repr

/-- Why a completion failed on the way. -/
inductive HttpFault where
  /-- Nothing can be sent from here at all. -/
  | noClient (cause : String)
  /-- No request could be made of the address. -/
  | badUrl (fault : UrlFault)
  /-- A header would hold controls. -/
  | badHeader
  /-- The request did not reach the address. -/
  | unsent (url : String)
  /-- The answer has another form. -/
  | undecodable (url : String)
deriving DecidableEq, Repr

/-- The words for a fault on the way, without its cause. -/
def HttpFault.message : HttpFault → String
  | noClient _ => "builder error"
  | badUrl (.otherScheme text) => "builder error for url (" ++ text ++ ")"
  | badUrl _ => "builder error"
  | badHeader => "builder error"
  | unsent url => "error sending request for url (" ++ url ++ ")"
  | undecodable url => "error decoding response body for url (" ++ url ++ ")"

/-- Why there is no completion. -/
inductive CompletionFault where
  | http (fault : HttpFault)
  /-- The provider refused. -/
  | api (status : Nat) (message : String)
  /-- The answer has no text. -/
  | empty (m : Model)
deriving DecidableEq, Repr

def CompletionFault.message : CompletionFault → String
  | http f => "HTTP error: " ++ f.message
  | api status message => "API error (" ++ toString status ++ "): " ++ message
  | empty m => "empty completion from " ++ m.name

/-- A way to ask a provider. -/
structure Client where
  provider : Provider
  apiKey : String
  /-- The address of the provider without slashes at its end. -/
  baseUrl : String
  maxTokens : UInt32
deriving DecidableEq, Repr

/-- Drops the slashes at the end of a text. -/
def trimSlashes (s : String) : String :=
  String.ofList (s.toList.reverse.dropWhile (· = '/')).reverse

/-- A client for the provider of a model. Its key has to be set. -/
def Client.ofSettings (s : Settings) (m : Model) : Except MissingKey Client :=
  (s.providerFor m).map fun p => ⟨m.provider, p.apiKey, trimSlashes p.baseUrl, s.render.maxTokens⟩

/-- May a text be the value of a header? -/
def isHeaderValue (s : String) : Bool :=
  s.toList.all fun c => c = '\t' || (0x20 ≤ c.toNat && c.toNat != 0x7F)

/-- The version of the interface for messages. -/
def messagesVersion : String := "2023-06-01"

/-- The name of this program in requests. -/
def agentName : String := "sigdoc/0.1.0"

namespace Client

/-- The address that is asked, as it is put together. -/
def endpoint (c : Client) : String :=
  match c.provider with
  | .openAi => c.baseUrl ++ "/chat/completions"
  | .anthropic => c.baseUrl ++ "/messages"

/-- The headers that carry the key. -/
def keyHeaders (c : Client) : List (String × String) :=
  match c.provider with
  | .openAi => [("authorization", "Bearer " ++ c.apiKey)]
  | .anthropic => [("x-api-key", c.apiKey), ("anthropic-version", messagesVersion)]

/-- The body of a request. -/
def bodyFor (c : Client) (m : Model) (prompt : String) : Json :=
  let messages := ("messages", Json.array [Json.record [("role", .ofString "user"),
    ("content", .ofString prompt)]])
  let model := ("model", Json.ofString m.providerName)
  match c.provider with
  | .openAi => .record [model, messages]
  | .anthropic => .record [model, ("max_tokens", .ofNat c.maxTokens.toNat), messages]

/-- The request for a prompt. -/
def request (c : Client) (m : Model) (prompt : String) : Except HttpFault Request :=
  match Url.parse c.endpoint with
  | .error f => .error (.badUrl f)
  | .ok url =>
    if c.keyHeaders.all fun (_, v) => isHeaderValue v then
      .ok ⟨url, c.keyHeaders ++ [("content-type", "application/json"), ("user-agent", agentName)],
        (c.bodyFor m prompt).text .compact⟩
    else .error .badHeader

/-- The note that a request is made. -/
def requestLog (c : Client) (m : Model) : LogLine :=
  let what := match c.provider with
    | .openAi => "requesting chat completion"
    | .anthropic => "requesting message completion"
  ⟨.client, .debug, what, [("model", m.name), ("url", c.endpoint)]⟩

/-- The most characters of an answer that a message quotes. -/
def quotedLimit : Nat := 500

/-- The answer to a request as a completion: none if the provider refused, if the answer has another form, or if
it has no text. -/
def receive (c : Client) (m : Model) (url : Url) (r : Response) : Except CompletionFault String :=
  if 200 ≤ r.status && r.status < 300 then
    let read : Option (Option (List Char)) :=
      (Json.parse? (decode r.body)).bind fun v =>
        match c.provider with
        | .openAi => (ChatChoice.listOfJson? v).map chatText
        | .anthropic => (ContentBlock.listOfJson? v).map messageText
    match read with
    | none => .error (.http (.undecodable url.text))
    | some none => .error (.empty m)
    | some (some cs) => .ok (String.ofList cs)
  else .error (.api r.status (String.ofList ((decodeMarked r.body).take quotedLimit)))

end Client

/-- A conversation with a provider: the answer that each request gets, by the number of requests before it, and
the requests that have been sent. A request may stay without an answer. -/
structure Exchange where
  answer : Nat → Option Response
  sent : List Request

/-- Sends a request and takes its answer. -/
def Exchange.send (e : Exchange) (r : Request) : Exchange × Option Response :=
  ({ e with sent := e.sent ++ [r] }, e.answer e.sent.length)

/-- Asks for a completion. -/
def Client.complete (c : Client) (e : Exchange) (m : Model) (prompt : String) :
    Exchange × Except CompletionFault String :=
  match c.request m prompt with
  | .error f => (e, .error (.http f))
  | .ok r =>
    match e.send r with
    | (e', none) => (e', .error (.http (.unsent r.url.text)))
    | (e', some response) => (e', c.receive m r.url response)

end SignatureDocs
