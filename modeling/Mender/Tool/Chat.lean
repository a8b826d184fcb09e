import Mender.Http.Status
import Mender.Json.Form
import Mender.Text.Blank
import Mender.Tool.Basic

/-!
A language model behind a chat completion endpoint.

The instructions are the system's message and the context the user's; the answer is the
content of the first choice.
-/

namespace Mender.Tool

/-- The number one fifth. -/
def mildTemperature : Binary64 := (Binary64.ofRatio false 1 5).getD .zero

structure ChatModel where
  baseUrl : String
  model : String
  key : Option String := none
  temperature : Binary64 := mildTemperature
  maxTokens : Nat := 4096
  headers : KeyMap String := ∅

/-- A request that is sent with POST. -/
structure Posting where
  url : String
  headers : List (String × String)
  body : Json

/-- How a request ends: without an answer, or with a status and a body. -/
inductive PostingEnd
  | unsent (reason : String)
  | timedOut (limit : Nat)
  | answered (status : Nat) (body : String)

namespace ChatModel

def url (m : ChatModel) : String :=
  String.ofList (Text.dropTail (· == '/') m.baseUrl.toList) ++ "/chat/completions"

def message (role content : String) : Json :=
  .ofFields [("role", .str role), ("content", .str content)]

def body (m : ChatModel) (instructions context : String) : Json :=
  .ofFields [("model", .str m.model),
    ("messages", .arr [message "system" instructions, message "user" context]),
    ("max_tokens", .ofNat m.maxTokens), ("temperature", .real m.temperature)]

/-- What is left of a header's value on its way: blanks around it do not count. -/
def headerValue (s : String) : String :=
  let isPad (c : Char) : Bool := c == ' ' || c == '\t'
  String.ofList (Text.dropTail isPad (s.toList.dropWhile isPad))

def allHeaders (m : ChatModel) : List (String × String) :=
  let given := ("content-type", "application/json") ::
    (m.key.toList.map fun k => ("authorization", "Bearer " ++ k)) ++ m.headers.entries
  given.map fun h => (h.1, headerValue h.2)

def posting (m : ChatModel) (instructions context : String) : Posting :=
  ⟨m.url, m.allHeaders, m.body instructions context⟩

end ChatModel

namespace Completion

def form : Json.Form := .record "ChatCompletionResponse" [
  { name := "choices", form := .list (.record "ChatChoice" [
    { name := "message", form := .record "ChatMessage" [
      { name := "role", form := .text },
      { name := "content", form := .text }] }]) }]

/-- The content of the first choice; nothing is said when there is none. -/
def content (j : Json) : String :=
  (((j.itemsField "choices").head?.bind (·.field? "message")).bind
    (·.stringField? "content")).getD ""

/-- The answer of an endpoint. -/
def read : PostingEnd → Except Fault String
  | .unsent reason => .error (.unavailable "patch-generator" reason)
  | .timedOut limit => .error (.timedOut "patch-generator" limit)
  | .answered status body =>
    let body := if Http.hasBody status then body else ""
    if Http.isSuccess status then
      match form.parse body.toList with
      | .ok j => .ok (content j)
      | .error _ => .error (.http "error decoding response body")
    else
      .error (.http ("chat completion failed (" ++ Http.statusText status ++ "): " ++ body))

end Completion

end Mender.Tool
