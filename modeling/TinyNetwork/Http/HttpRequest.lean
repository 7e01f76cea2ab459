import TinyNetwork.Lib.Bytes
import TinyNetwork.Base.TimeStamp
import Mathlib.Data.List.AList
import Mathlib.Data.List.DropRight

/-!
# `class HttpRequest` (src/http/HttpRequest.h) and `processRequestLine` (src/http/HttpContext.cpp)

A pair of pointers into the input is the list of bytes between them, and `std::find` splits such a
list in front of the byte looked for.  The header map is an association list without repeated
keys; the order of its entries is the (unspecified) iteration order of the `unordered_map`.
-/

namespace TinyNetwork

open Bytes

/-- `std::unordered_map<std::string, std::string>`. -/
abbrev HeaderMap := AList fun _ : Bytes => Bytes

namespace HttpRequest

inductive Method
  | kInvalid
  | kGet
  | kPost
  | kHead
  | kPut
  | kDelete
  deriving DecidableEq

inductive Version
  | kUnknown
  | kHttp10
  | kHttp11
  deriving DecidableEq

end HttpRequest

structure HttpRequest where
  method : HttpRequest.Method := .kInvalid
  version : HttpRequest.Version := .kUnknown
  headers : HeaderMap := ∅
  path : Bytes := []
  query : Bytes := []
  body : Bytes := []
  receiveTime : TimeStamp := 0
  deriving DecidableEq

/-- `isspace` in the C locale. -/
def isspace (c : UInt8) : Bool := c == 32 || (9 ≤ c && c ≤ 13)

/-- `std::find`: the bytes in front of the first `c`, and the bytes from it on. -/
def find (c : UInt8) (bs : Bytes) : Bytes × Bytes := bs.span (· != c)

theorem find_eq (c : UInt8) (bs : Bytes) :
    find c bs = (bs.takeWhile (· != c), bs.dropWhile (· != c)) :=
  List.span_eq_takeWhile_dropWhile _ bs

theorem find_fst_append_snd (c : UInt8) (bs : Bytes) : (find c bs).1 ++ (find c bs).2 = bs := by
  rw [find_eq]
  exact List.takeWhile_append_dropWhile

/-- The byte is found right behind a prefix that lacks it. -/
theorem find_append_cons {c : UInt8} {pre : Bytes} (h : c ∉ pre) (post : Bytes) :
    find c (pre ++ c :: post) = (pre, c :: post) := by
  have hpre : ∀ x ∈ pre, (x != c) = true := fun x hx => by
    rw [bne_iff_ne]
    rintro rfl
    exact h hx
  rw [find_eq, List.takeWhile_append_of_pos hpre, List.dropWhile_append_of_pos hpre]
  simp

/-- Nothing is found in a string that lacks the byte. -/
theorem find_of_notMem {c : UInt8} {bs : Bytes} (h : c ∉ bs) : find c bs = (bs, []) := by
  have hbs : ∀ x ∈ bs, (x != c) = true := fun x hx => by
    rw [bne_iff_ne]
    rintro rfl
    exact h hx
  rw [find_eq, List.takeWhile_eq_self_iff.2 hbs, List.dropWhile_eq_nil_iff.2 hbs]

namespace HttpRequest

/-- The method named by a string. -/
def Method.ofBytes (m : Bytes) : Method :=
  if m = ascii "GET" then .kGet
  else if m = ascii "POST" then .kPost
  else if m = ascii "HEAD" then .kHead
  else if m = ascii "PUT" then .kPut
  else if m = ascii "DELETE" then .kDelete
  else .kInvalid

/-- `methodString()`. -/
def methodString (r : HttpRequest) : Bytes :=
  match r.method with
  | .kGet => ascii "GET"
  | .kPost => ascii "POST"
  | .kHead => ascii "HEAD"
  | .kPut => ascii "PUT"
  | .kDelete => ascii "DELETE"
  | .kInvalid => ascii "UNKNOWN"

def setMethod (r : HttpRequest) (m : Bytes) : Bool × HttpRequest :=
  (decide (Method.ofBytes m ≠ .kInvalid), { r with method := Method.ofBytes m })

def setVersion (r : HttpRequest) (v : Version) : HttpRequest := { r with version := v }

def setPath (r : HttpRequest) (p : Bytes) : HttpRequest := { r with path := p }

def setQuery (r : HttpRequest) (q : Bytes) : HttpRequest := { r with query := q }

def setReceiveTime (r : HttpRequest) (t : TimeStamp) : HttpRequest := { r with receiveTime := t }

/-- The value of a header line: blanks are skipped in front and dropped at the end. -/
def headerValue (bs : Bytes) : Bytes := (bs.dropWhile isspace).rdropWhile isspace

/-- `addHeader(start, colon, end)` with the bytes `field` in front of the colon and `rest`
behind it. -/
def addHeader (r : HttpRequest) (field rest : Bytes) : HttpRequest :=
  { r with headers := r.headers.insert field (headerValue rest) }

/-- `getHeader`: the empty string when the field is absent. -/
def getHeader (r : HttpRequest) (field : Bytes) : Bytes := (r.headers.lookup field).getD []

/-- `HttpContext::processRequestLine` on the bytes `line`: the flag it returns and `request_`
afterwards.  A line that is rejected late has already set some of the fields. -/
def processRequestLine (r : HttpRequest) (line : Bytes) : Bool × HttpRequest :=
  match find 32 line with
  | (_, []) => (false, r)
  | (m, _ :: rest) =>
    match r.setMethod m with
    | (false, r) => (false, r)
    | (true, r) =>
      match find 32 rest with
      | (_, []) => (false, r)
      | (target, _ :: version) =>
        let r :=
          match find 63 target with
          | (_, []) => r.setPath target
          | (path, query) => (r.setPath path).setQuery query
        if version.length = 8 ∧ version.take 7 = ascii "HTTP/1." then
          if version.getLast? = some 49 then (true, r.setVersion .kHttp11)
          else if version.getLast? = some 48 then (true, r.setVersion .kHttp10)
          else (false, r)
        else (false, r)

/-- The receive time plays no part in the processing of a request line. -/
theorem processRequestLine_setReceiveTime (r : HttpRequest) (line : Bytes) (t : TimeStamp) :
    (r.setReceiveTime t).processRequestLine line =
      ((r.processRequestLine line).1, (r.processRequestLine line).2.setReceiveTime t) := by
  unfold processRequestLine
  rcases find 32 line with ⟨m, _ | ⟨sp, rest⟩⟩
  · rfl
  · simp only [setMethod]
    cases decide (Method.ofBytes m ≠ .kInvalid) with
    | false => rfl
    | true =>
      rcases find 32 rest with ⟨target, _ | ⟨sp', version⟩⟩
      · rfl
      · simp only
        rcases find 63 target with ⟨path, _ | ⟨qm, query⟩⟩ <;> simp only <;> split_ifs <;> rfl

end HttpRequest

end TinyNetwork
