import DocComments.Model.Call
import DocComments.Settings.Config

/-!
# Chat models

Models behind an HTTP interface for chats. A call is one request with its messages; how requests
are sent is left to a transport.
-/

set_option autoImplicit false

namespace DocComments

inductive Role where
  | system
  | user
  deriving DecidableEq, Repr

def Role.name : Role → String
  | system => "system"
  | user => "user"

structure Message where
  role : Role
  content : Text
  deriving DecidableEq, Repr

structure Endpoint where
  url : Text
  key : Option Text
  deriving DecidableEq, Repr

/-- The endpoint below the address of an interface. Slashes at the end of the address do not
count. -/
def Endpoint.below (base : Text) (key : Option Text) : Endpoint :=
  ⟨Text.trimEndOf '/' base ++ "/chat/completions".toList, key⟩

structure ChatRequest where
  endpoint : Endpoint
  model : Text
  messages : List Message
  temperature : Option Float32

/-- What proves that the sender may ask, if there is a key. -/
def ChatRequest.authorization (r : ChatRequest) : Option Text :=
  r.endpoint.key.map ("Bearer ".toList ++ ·)

/-- The temperature in the body of a request, if it is given: a number that is not finite cannot be
written and leaves an empty value. -/
def ChatRequest.writtenTemperature (r : ChatRequest) : Option (Option Float32) :=
  r.temperature.map fun t => if t.isFinite then some t else none

structure ChatReply where
  status : Nat
  body : Text
  deriving DecidableEq, Repr

namespace ChatReply

def isSuccess (r : ChatReply) : Bool := 200 ≤ r.status && r.status < 300

/-- The completion in a reply. What a reply of failure says is not read. -/
def completion (r : ChatReply) : Except ModelError Completion :=
  if r.isSuccess then Completion.read r.body else .error (.status r.status r.body)

end ChatReply

/-- How requests are sent. Nothing may come back. -/
abbrev Transport (σ : Type) := ChatRequest → σ → Option ChatReply × σ

namespace Transport

def complete {σ : Type} (send : Transport σ) (r : ChatRequest) (s : σ) :
    Except ModelError Completion × σ :=
  match send r s with
  | (some reply, s) => (reply.completion, s)
  | (none, s) => (.error .dropped, s)

end Transport

namespace Models

def judgeSystem : Text :=
  ("You review documentation comments for source code. Be strict: " ++
    "reject comments that are inaccurate or merely restate the name.").toList

def draftMessages (tk : Tokenizer) (r : DraftRequest) : List Message :=
  (r.system.map (Message.mk .system)).toList ++ [⟨.user, r.text tk⟩]

def judgeMessages (q : Question) : List Message :=
  [⟨.system, judgeSystem⟩, ⟨.user, q.prompt ++ ['\n', '\n'] ++ q.labels.instructions.toList⟩]

/-- Chat models at an endpoint, with the name of the one that judges and the price of a thousand
tokens. A judge is asked at temperature zero. -/
def chat {σ : Type} (tk : Tokenizer) (send : Transport σ) (endpoint : Endpoint) (judge : Text)
    (price : Float) : Models σ where
  draft r s :=
    let (answer, s) := send.complete ⟨endpoint, r.model, draftMessages tk r, r.temperature⟩ s
    (answer.map fun a => ⟨a.content, .priced a.tokens price⟩, s)
  judge q s :=
    let (answer, s) := send.complete ⟨endpoint, judge, judgeMessages q, some 0⟩ s
    (answer.map fun a => ⟨q.labels.pick a.content, a.content, .priced a.tokens price⟩, s)

def ofConfig {σ : Type} (tk : Tokenizer) (send : Transport σ) (env : Environment) (c : Config) :
    Models σ :=
  if c.mock then placeholder
  else chat tk send (Endpoint.below c.apiBase (c.apiKey env)) c.judgeModel c.price

end Models

end DocComments
