import Cerberus.Contract.Compute
import Cerberus.Foundation.Path

/-!
# The gateway

The OpenAI-compatible front door of the daemon (`daemon/gateway`: `gateway.go`, `chat.go`,
`completions.go`). A request is authorized, decoded, validated and dispatched; the output of the
component comes back in one JSON document, or as a stream of events of 64 bytes each.

The authorizer and the executor are interfaces of the source, so they are fields of the gateway; the
JSON decoder has either decoded the body or reports an error. A write to the client may fail and the
client may hang up at any point of a stream (`Client`). Settlement and the history of workloads are
told about a dispatch and do not change the response; they are left out.
-/

namespace Cerberus

open Foundation Contract

structure Gateway where
  /-- `Authorize(token, right, resource)`: the subject of the token, or the text of the error. -/
  authorizer : GoString → GoString → GoString → Except GoString GoString
  dispatcher : ComputeTask → Except GoString Promise
  resolver : Promise → Except GoString ComputeResult
  /-- The component ids of the registered models. -/
  models : OrdMap GoString GoString

namespace Gateway

/-! ### Requests and responses -/

structure ChatMessage where
  role : GoString
  content : GoString

structure ChatRequest where
  model : GoString
  messages : List ChatMessage
  stream : Bool

structure CompletionRequest where
  model : GoString
  prompt : GoString
  stream : Bool

structure Usage where
  promptTokens : ℕ
  completionTokens : ℕ
  totalTokens : ℕ

structure ChatChoice where
  index : ℕ
  message : ChatMessage
  finishReason : GoString

structure ChatResponse where
  id : GoString
  object : GoString
  created : Int64
  model : GoString
  choices : List ChatChoice
  usage : Usage

structure ChatChunkChoice where
  index : ℕ
  role : GoString
  content : GoString
  finishReason : Option GoString

structure ChatChunk where
  id : GoString
  object : GoString
  created : Int64
  model : GoString
  choices : List ChatChunkChoice

structure CompletionChoice where
  index : ℕ
  text : GoString
  finishReason : GoString

structure CompletionResponse where
  id : GoString
  object : GoString
  created : Int64
  model : GoString
  choices : List CompletionChoice
  usage : Usage

structure CompletionChunk where
  id : GoString
  object : GoString
  created : Int64
  model : GoString
  choices : List CompletionChoice

structure HttpRequest (α : Type) where
  method : GoString
  authorization : GoString
  /-- The decoded body, or the text of the error of the decoder. -/
  body : Except GoString α
  /-- Whether data follows the body. -/
  more : Bool

/-- An error response (`writeError`). -/
structure Failure where
  status : ℕ
  typ : GoString
  msg : GoString
  deriving DecidableEq

/-- The events of a stream that were written, and whether the end of it was. -/
structure EventStream (κ : Type) where
  events : List κ
  done : Bool

inductive Response (ρ κ : Type)
  | error (f : Failure)
  | document (r : ρ)
  | stream (s : EventStream κ)

structure Client where
  canFlush : Bool
  /-- The client has hung up when the event with this number is to be written. -/
  gone : ℕ → Bool
  /-- The write of the event with this number fails. -/
  broken : ℕ → Bool

/-! ### Checks -/

def maxMessages : ℕ := 256

def maxContentBytes : ℕ := 512 * 2 ^ 10

def maxPromptBytes : ℕ := 512 * 2 ^ 10

def invalidRequestError : GoString := .lit "invalid_request_error"

def serverError : GoString := .lit "server_error"

def validateMessages : List ChatMessage → ℕ → Option Failure
  | [], _ => none
  | m :: ms, total =>
    if m.role.trimSpace = .lit "" then
      some ⟨400, invalidRequestError, .lit "message is missing a role"⟩
    else if m.content = .lit "" then
      some ⟨400, invalidRequestError, .lit "message is missing content"⟩
    else if maxContentBytes < total + m.content.bytes.length then
      some ⟨413, invalidRequestError, .lit "message content too large"⟩
    else validateMessages ms (total + m.content.bytes.length)

def ChatRequest.validate (req : ChatRequest) : Option Failure :=
  if req.model.trimSpace = .lit "" then
    some ⟨400, invalidRequestError, .lit "missing required field: model"⟩
  else if req.messages = [] then
    some ⟨400, invalidRequestError, .lit "messages must contain at least one message"⟩
  else if maxMessages < req.messages.length then
    some ⟨413, invalidRequestError, .lit "too many messages"⟩
  else validateMessages req.messages 0

def ChatRequest.promptBytes (req : ChatRequest) : ℕ :=
  (req.messages.map fun m => m.content.bytes.length).sum

def CompletionRequest.validate (req : CompletionRequest) : Option Failure :=
  if req.model.trimSpace = .lit "" then
    some ⟨400, invalidRequestError, .lit "missing required field: model"⟩
  else if req.prompt = .lit "" then
    some ⟨400, invalidRequestError, .lit "missing required field: prompt"⟩
  else if maxPromptBytes < req.prompt.bytes.length then
    some ⟨413, invalidRequestError, .lit "prompt too large"⟩
  else none

def bearerToken (header : GoString) : GoString :=
  if header.hasPrefix (.lit "Bearer ") then (header.trimPrefix (.lit "Bearer ")).trimSpace
  else .lit ""

def authorize (g : Gateway) (authorization : GoString) : Except Failure GoString :=
  let tok := bearerToken authorization
  if tok = .lit "" then .error ⟨401, invalidRequestError, .lit "missing bearer token"⟩
  else
    match g.authorizer tok (.lit "exec") (.lit "") with
    | .error e => .error ⟨401, invalidRequestError, .lit "unauthorized: " ++ e⟩
    | .ok subject => .ok subject

def componentFor (g : Gateway) (model : GoString) : List UInt8 :=
  match g.models.get? model with
  | some cid => if cid ≠ .lit "" then cid.bytes else model.bytes
  | none => model.bytes

def dispatch (g : Gateway) (subject model : GoString) : Except GoString ComputeResult :=
  match g.dispatcher ⟨(subject ++ .lit ":" ++ model).bytes, g.componentFor model, default, [], [],
    []⟩ with
  | .error e => .error e
  | .ok promise => g.resolver promise

/-- What both handlers do before they respond: the decoded body and the output of the component. -/
def accept {α : Type} (g : Gateway) (validate : α → Option Failure) (model : α → GoString)
    (r : HttpRequest α) : Except Failure (α × GoString) :=
  if r.method ≠ .lit "POST" then .error ⟨405, invalidRequestError, .lit "method not allowed"⟩
  else
    match g.authorize r.authorization with
    | .error f => .error f
    | .ok subject =>
      match r.body with
      | .error e => .error ⟨400, invalidRequestError, .lit "invalid JSON body: " ++ e⟩
      | .ok req =>
        if r.more then
          .error ⟨400, invalidRequestError, .lit "unexpected trailing data in body"⟩
        else
          match validate req with
          | some f => .error f
          | none =>
            match g.dispatch subject (model req) with
            | .error e => .error ⟨500, serverError, e⟩
            | .ok result =>
              if result.ok = false then
                let msg :=
                  if result.error = .lit "" then .lit "workload produced no result"
                  else result.error
                .error ⟨502, serverError, .lit "workload failed: " ++ msg⟩
              else .ok (req, ⟨result.output⟩)

/-! ### Streams -/

/-- The loop of `chunkString`; the length of the string is enough fuel (`chunkLoop_eq`). -/
def chunkLoop (n : ℕ) : ℕ → List UInt8 → List (List UInt8)
  | 0, s => [s]
  | fuel + 1, s => if n < s.length then s.take n :: chunkLoop n fuel (s.drop n) else [s]

def chunkString (s : GoString) (n : ℕ) : List GoString :=
  if s = .lit "" then []
  else if n = 0 then [s]
  else (chunkLoop n s.bytes.length s.bytes).map GoString.mk

variable {κ : Type}

/-- The loop over the pieces, from the event with number `i` on: the events that were written, and
whether all of them were. -/
def writePieces (cl : Client) (chunk : GoString → κ) : ℕ → List GoString → List κ × Bool
  | _, [] => ([], true)
  | i, piece :: pieces =>
    if cl.gone i = true ∨ cl.broken i = true then ([], false)
    else
      let rest := writePieces cl chunk (i + 1) pieces
      (chunk piece :: rest.1, rest.2)

/-- The pieces of the content, the last event and the end of the stream, which are tried even if the
last event fails. -/
def streamContent (cl : Client) (chunk : GoString → κ) (last : κ) (i : ℕ) (content : GoString) :
    EventStream κ :=
  let written := writePieces cl chunk i (chunkString content 64)
  let n := i + written.1.length
  if written.2 = false then ⟨written.1, false⟩
  else ⟨written.1 ++ (if cl.broken n then [] else [last]), !cl.broken (n + 1)⟩

def streamingUnsupported : Failure :=
  ⟨500, serverError, .lit "streaming unsupported by transport"⟩

/-- `streamChat`: an event with the role, the pieces and an event with the reason of the end. -/
def streamChat (cl : Client) (id : GoString) (req : ChatRequest) (content : GoString)
    (created : Int64) : Response ChatResponse ChatChunk :=
  let chunk (role content : GoString) (finishReason : Option GoString) : ChatChunk :=
    ⟨id, .lit "chat.completion.chunk", created, req.model, [⟨0, role, content, finishReason⟩]⟩
  if cl.canFlush = false then .error streamingUnsupported
  else if cl.broken 0 then .stream ⟨[], false⟩
  else
    let s := streamContent cl (chunk (.lit "") · none)
      (chunk (.lit "") (.lit "") (some (.lit "stop")))
      1 content
    .stream ⟨chunk (.lit "assistant") (.lit "") none :: s.events, s.done⟩

def streamCompletion (cl : Client) (id model text : GoString) (created : Int64) :
    Response CompletionResponse CompletionChunk :=
  let chunk (text finishReason : GoString) : CompletionChunk :=
    ⟨id, .lit "text_completion", created, model, [⟨0, text, finishReason⟩]⟩
  if cl.canFlush = false then .error streamingUnsupported
  else .stream (streamContent cl (chunk · (.lit "")) (chunk (.lit "") (.lit "stop")) 0 text)

/-! ### Handlers -/

def handleChatCompletions (g : Gateway) (cl : Client) (created : Int64)
    (r : HttpRequest ChatRequest) : Response ChatResponse ChatChunk :=
  match g.accept ChatRequest.validate ChatRequest.model r with
  | .error f => .error f
  | .ok (req, content) =>
    if req.stream then streamChat cl (.lit "chatcmpl-cerberus") req content created
    else
      .document
        { id := .lit "chatcmpl-cerberus"
          object := .lit "chat.completion"
          created := created
          model := req.model
          choices := [⟨0, ⟨.lit "assistant", content⟩, .lit "stop"⟩]
          usage := ⟨req.promptBytes, content.bytes.length,
            req.promptBytes + content.bytes.length⟩ }

def handleCompletions (g : Gateway) (cl : Client) (created : Int64)
    (r : HttpRequest CompletionRequest) : Response CompletionResponse CompletionChunk :=
  match g.accept CompletionRequest.validate CompletionRequest.model r with
  | .error f => .error f
  | .ok (req, text) =>
    if req.stream then streamCompletion cl (.lit "cmpl-cerberus") req.model text created
    else
      .document
        { id := .lit "cmpl-cerberus"
          object := .lit "text_completion"
          created := created
          model := req.model
          choices := [⟨0, text, .lit "stop"⟩]
          usage := ⟨req.prompt.bytes.length, text.bytes.length,
            req.prompt.bytes.length + text.bytes.length⟩ }

end Gateway

end Cerberus
