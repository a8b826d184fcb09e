import Mender.Digest
import Mender.Json.Form
import Mender.Text.Search
import Mender.Text.Numeral

/-!
Requests and responses, as far as the service looks at them.
-/

namespace Mender.Http

open Mender.Text

structure Request where
  method : String
  /-- The path, perhaps with a query after it. -/
  target : String
  contentType : Option String := none
  body : String := ""

namespace Request

/-- The path without the query. -/
def path (r : Request) : List Char := r.target.toList.takeWhile fun c => c != '?' && c != '#'

def form : Json.Form := .record "Request" [
  { name := "method", form := .text, absent := .default (.str "GET") },
  { name := "target", form := .text },
  { name := "contentType", form := .optional .text, absent := .default .null },
  { name := "body", form := .text, absent := .default (.str "") }]

def ofJson (j : Json) : Request where
  method := (j.stringField? "method").getD "GET"
  target := (j.stringField? "target").getD ""
  contentType := j.stringField? "contentType"
  body := (j.stringField? "body").getD ""

end Request

structure Response where
  status : Nat
  contentType : Option String := none
  body : String := ""
  deriving DecidableEq

namespace Response

def json (status : Nat) (j : Json) : Response := ⟨status, some "application/json", j.compact⟩

def plain (status : Nat) (text : String) : Response :=
  ⟨status, some "text/plain; charset=utf-8", text⟩

def empty (status : Nat) : Response := { status }

def toJson (r : Response) : Json :=
  .ofFields [("status", .ofNat r.status), ("contentType", .ofOption .str r.contentType),
    ("body", .str r.body)]

/-- The response without its body. -/
def bodiless (r : Response) : Response := { r with body := "" }

end Response

/-- The bytes of a path segment: a percent sign with two hexadecimal digits stands for a
byte. -/
def percentDecoded : List Char → List UInt8
  | [] => []
  | '%' :: a :: b :: r =>
    match digitIn? 16 a, digitIn? 16 b with
    | some x, some y => UInt8.ofNat (16 * x + y) :: percentDecoded r
    | _, _ => utf8 ['%'] ++ percentDecoded (a :: b :: r)
  | c :: r => utf8 [c] ++ percentDecoded r

/-- The text of a path segment, if its bytes are UTF-8. -/
def segmentText? (segment : List Char) : Option String :=
  String.fromUTF8? ⟨(percentDecoded segment).toArray⟩

end Mender.Http
