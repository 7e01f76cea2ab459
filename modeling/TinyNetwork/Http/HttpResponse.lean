import TinyNetwork.Http.HttpRequest
import TinyNetwork.Net.Buffer

/-!
# `class HttpResponse` (src/http/HttpResponse.h, src/http/HttpResponse.cpp)

`appendToBuffer` prints a response.  The two `snprintf` calls write to an array of 32 bytes, so
what they print is cut after 31; the order of the header lines is the iteration order of the map.
-/

namespace TinyNetwork

open Bytes

namespace HttpResponse

inductive HttpStatusCode
  | kUnknown
  | k200Ok
  | k301MovedPermanently
  | k400BadRequest
  | k404NotFound
  deriving DecidableEq

/-- The value of the enumerator. -/
def HttpStatusCode.toNat : HttpStatusCode → ℕ
  | .kUnknown => 0
  | .k200Ok => 200
  | .k301MovedPermanently => 301
  | .k400BadRequest => 400
  | .k404NotFound => 404

end HttpResponse

structure HttpResponse where
  headers : HeaderMap := ∅
  statusCode : HttpResponse.HttpStatusCode := .kUnknown
  closeConnection : Bool
  statusMessage : Bytes := []
  body : Bytes := []
  deriving DecidableEq

namespace HttpResponse

def setStatusCode (r : HttpResponse) (code : HttpStatusCode) : HttpResponse :=
  { r with statusCode := code }

def setStatusMessage (r : HttpResponse) (message : Bytes) : HttpResponse :=
  { r with statusMessage := message }

def setCloseConnection (r : HttpResponse) (on : Bool) : HttpResponse :=
  { r with closeConnection := on }

def addHeader (r : HttpResponse) (key value : Bytes) : HttpResponse :=
  { r with headers := r.headers.insert key value }

/-- `snprintf(buf, sizeof(buf), ...)` with `char buf[32]`, read back as a string. -/
def snprintf32 (bs : Bytes) : Bytes := bs.take 31

/-- The strings appended by `appendToBuffer`, in order. -/
def pieces (r : HttpResponse) : List Bytes :=
  [snprintf32 (ascii "HTTP/1.1 " ++ decimal r.statusCode.toNat ++ ascii " "), r.statusMessage,
    ascii "\r\n"] ++
  (if r.closeConnection then [ascii "Connection: close\r\n"]
  else
    [snprintf32 (ascii "Content-Length: " ++ decimal r.body.length ++ ascii "\r\n"),
      ascii "Connection: Keep-Alive\r\n"]) ++
  r.headers.entries.flatMap (fun header => [header.1, ascii ": ", header.2, ascii "\r\n"]) ++
  [ascii "\r\n", r.body]

def appendToBuffer (r : HttpResponse) (output : Buffer) : Buffer :=
  r.pieces.foldl Buffer.append output

/-- What `appendToBuffer` appends. -/
def bytes (r : HttpResponse) : Bytes := r.pieces.flatten

theorem readable_appendToBuffer (r : HttpResponse) (output : Buffer) :
    (r.appendToBuffer output).readable = output.readable ++ r.bytes := by
  unfold appendToBuffer bytes
  induction r.pieces generalizing output with
  | nil => simp
  | cons piece pieces ih =>
    rw [List.foldl_cons, ih, Buffer.readable_append, List.flatten_cons, List.append_assoc]

/-- A response begins with `H`. -/
theorem head?_bytes (r : HttpResponse) : r.bytes.head? = some 72 := rfl

theorem bytes_ne_nil (r : HttpResponse) : r.bytes ≠ [] := by
  intro hnil
  have hhead := r.head?_bytes
  rw [hnil] at hhead
  cases hhead

end HttpResponse

end TinyNetwork
