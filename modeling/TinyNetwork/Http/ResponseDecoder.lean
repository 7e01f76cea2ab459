import TinyNetwork.Http.HeaderSection
import TinyNetwork.Http.HttpResponse

/-!
# Responses are uniquely decodable

`decode` is a reference decoder, written from the format and not from the code: a status line,
header fields up to the empty line, and a body that reaches to the end of the input after
`Connection: close` and has `Content-Length` bytes otherwise.  `decode_bytes` says that it recovers
every printable response from what `appendToBuffer` printed, whatever follows, and
`responses_decodable` adds the sequences of responses on a connection that is kept alive.
-/

namespace TinyNetwork

open Bytes Search

/-! ### The decoder -/

namespace ResponseDecoder

open HttpResponse (HttpStatusCode)

def connection : Bytes := ascii "Connection"

def contentLength : Bytes := ascii "Content-Length"

/-- The line up to the first CRLF, and what follows the CRLF. -/
def readLine (bs : Bytes) : Option (Bytes × Bytes) :=
  (search kCRLF bs).map fun crlf => (bs.take crlf, bs.drop (crlf + 2))

/-- The status code with a value. -/
def statusOfNat : ℕ → Option HttpStatusCode
  | 0 => some .kUnknown
  | 200 => some .k200Ok
  | 301 => some .k301MovedPermanently
  | 400 => some .k400BadRequest
  | 404 => some .k404NotFound
  | _ => none

/-- `HTTP/1.1 SP code SP message`. -/
def decodeStatusLine (line : Bytes) : Option (HttpStatusCode × Bytes) :=
  if ascii "HTTP/1.1 " <+: line then
    match find 32 (line.drop (ascii "HTTP/1.1 ").length) with
    | (digits, _ :: message) => (statusOfNat (parseDecimal digits)).map fun code => (code, message)
    | (_, []) => none
  else none

/-- One space may follow the colon of a header field. -/
def dropSpace : Bytes → Bytes
  | 32 :: value => value
  | value => value

/-- The header fields up to the empty line; the bound is a number of lines. -/
def readFields : ℕ → Bytes → Option (List (Bytes × Bytes) × Bytes)
  | 0, _ => none
  | n + 1, bs =>
    (readLine bs).bind fun line =>
      if line.1 = [] then some ([], line.2)
      else
        match find 58 line.1 with
        | (name, _ :: value) =>
          (readFields n line.2).map fun r => ((name, dropSpace value) :: r.1, r.2)
        | (_, []) => none

def fieldValue (fields : List (Bytes × Bytes)) (name : Bytes) : Option Bytes :=
  (fields.find? fun f => decide (f.1 = name)).map Prod.snd

/-- The header map, without the fields that say where the response ends. -/
def headerMap (fields : List (Bytes × Bytes)) : HeaderMap :=
  (fields.filter fun f => decide (f.1 ≠ connection ∧ f.1 ≠ contentLength)).foldr
    (fun f m => m.insert f.1 f.2) ∅

/-- The body, and the bytes that are left. -/
def decodeBody (fields : List (Bytes × Bytes)) (bs : Bytes) : Option (Bool × Bytes × Bytes) :=
  if fieldValue fields connection = some (ascii "close") then some (true, bs, [])
  else
    (fieldValue fields contentLength).bind fun digits =>
      let length := parseDecimal digits
      if length ≤ bs.length then some (false, bs.take length, bs.drop length) else none

/-- One response, and the bytes that are left. -/
def decode (bs : Bytes) : Option (HttpResponse × Bytes) := do
  let (line, bs) ← readLine bs
  let (code, message) ← decodeStatusLine line
  let (fields, bs) ← readFields bs.length bs
  let (close, body, rest) ← decodeBody fields bs
  return ({ headers := headerMap fields, statusCode := code, closeConnection := close,
            statusMessage := message, body := body }, rest)

/-- At most `n` responses, up to the end of the input. -/
def decodeUpTo : ℕ → Bytes → Option (List HttpResponse)
  | _, [] => some []
  | 0, _ :: _ => none
  | n + 1, b :: bs => do
    let (r, rest) ← decode (b :: bs)
    let rs ← decodeUpTo n rest
    return r :: rs

/-- All responses of an input that ends behind the last one. -/
def decodeAll (bs : Bytes) : Option (List HttpResponse) := decodeUpTo bs.length bs

end ResponseDecoder

namespace HttpResponse

open ResponseDecoder

/-- No line of the response is broken, no name holds a colon or says where the response ends, and
the length of the body has at most 13 digits. -/
structure Printable (r : HttpResponse) : Prop where
  message : 10 ∉ r.statusMessage
  name_lf : ∀ h ∈ r.headers.entries, 10 ∉ h.1
  name_colon : ∀ h ∈ r.headers.entries, 58 ∉ h.1
  name_connection : ∀ h ∈ r.headers.entries, h.1 ≠ connection
  name_contentLength : ∀ h ∈ r.headers.entries, h.1 ≠ contentLength
  value_lf : ∀ h ∈ r.headers.entries, 10 ∉ h.2
  body : r.body.length < 10 ^ 13

/-- The fields that say where the response ends. -/
def framing (r : HttpResponse) : List (Bytes × Bytes) :=
  if r.closeConnection then [(connection, ascii "close")]
  else [(contentLength, decimal r.body.length), (connection, ascii "Keep-Alive")]

/-- All header fields, in the order in which they are printed. -/
def fields (r : HttpResponse) : List (Bytes × Bytes) :=
  r.framing ++ r.headers.entries.map fun h => (h.1, h.2)

def statusLine (r : HttpResponse) : Bytes :=
  ascii "HTTP/1.1 " ++ (decimal r.statusCode.toNat ++ 32 :: r.statusMessage)

/-- A field as a line. -/
def fieldLine (f : Bytes × Bytes) : Bytes := f.1 ++ 58 :: 32 :: f.2

/-! ### What is printed -/

theorem snprintf32_of_le {bs : Bytes} (h : bs.length ≤ 31) : snprintf32 bs = bs :=
  List.take_of_length_le h

/-- The status line is not cut. -/
theorem snprintf32_status (code : HttpStatusCode) :
    snprintf32 (ascii "HTTP/1.1 " ++ decimal code.toNat ++ ascii " ") =
      ascii "HTTP/1.1 " ++ decimal code.toNat ++ ascii " " := by
  have hdigits : (decimal code.toNat).length ≤ 3 :=
    length_decimal_le (by decide) (by cases code <;> decide)
  have hprefix : (ascii "HTTP/1.1 ").length = 9 := by decide
  have hspace : (ascii " ").length = 1 := by decide
  refine snprintf32_of_le ?_
  rw [List.length_append, List.length_append]
  omega

/-- The `Content-Length` of a body with a length of at most 13 digits just fits. -/
theorem snprintf32_contentLength {n : ℕ} (h : n < 10 ^ 13) :
    snprintf32 (ascii "Content-Length: " ++ decimal n ++ ascii "\r\n") =
      ascii "Content-Length: " ++ decimal n ++ ascii "\r\n" := by
  have hdigits : (decimal n).length ≤ 13 := length_decimal_le (by decide) h
  have hprefix : (ascii "Content-Length: ").length = 16 := by decide
  have hcrlf : (ascii "\r\n").length = 2 := by decide
  refine snprintf32_of_le ?_
  rw [List.length_append, List.length_append]
  omega

theorem flatten_entries (entries : List (Sigma fun _ : Bytes => Bytes)) :
    (entries.flatMap fun h => [h.1, ascii ": ", h.2, ascii "\r\n"]).flatten =
      joinLines ((entries.map fun h => (h.1, h.2)).map fieldLine) := by
  have hcolon : ascii ": " = [58, 32] := by decide
  have hcrlf : ascii "\r\n" = kCRLF := by decide
  rw [hcolon, hcrlf]
  induction entries with
  | nil => rfl
  | cons h hs ih =>
    rw [List.flatMap_cons, List.flatten_append, ih, List.map_cons, List.map_cons, joinLines_cons]
    simp [fieldLine]

theorem flatten_framing (r : HttpResponse) :
    (if r.closeConnection then [ascii "Connection: close\r\n"]
      else [ascii "Content-Length: " ++ decimal r.body.length ++ ascii "\r\n",
        ascii "Connection: Keep-Alive\r\n"]).flatten = joinLines (r.framing.map fieldLine) := by
  have hclose : ascii "Connection: close\r\n" =
      fieldLine (connection, ascii "close") ++ kCRLF := by decide
  have halive : ascii "Connection: Keep-Alive\r\n" =
      fieldLine (connection, ascii "Keep-Alive") ++ kCRLF := by decide
  have hlength : ascii "Content-Length: " = contentLength ++ [58, 32] := by decide
  have hcrlf : ascii "\r\n" = kCRLF := by decide
  unfold framing
  rw [hclose, halive, hlength, hcrlf]
  split_ifs <;> simp [joinLines, fieldLine]

/-- The response as lines and a body. -/
theorem bytes_eq {r : HttpResponse} (hr : r.Printable) :
    r.bytes = r.statusLine ++ (kCRLF ++ (joinLines (r.fields.map fieldLine) ++ (kCRLF ++ r.body))) := by
  have hspace : ascii " " = [32] := by decide
  have hcrlf : ascii "\r\n" = kCRLF := by decide
  unfold bytes pieces
  rw [snprintf32_status, snprintf32_contentLength hr.body]
  simp only [List.flatten_append, flatten_entries, flatten_framing, statusLine, fields,
    List.map_append]
  simp [joinLines, hspace, hcrlf]

end HttpResponse

/-! ### What is decoded -/

namespace ResponseDecoder

open HttpResponse (fieldLine HttpStatusCode)

theorem readLine_line {line : Bytes} (h : 10 ∉ line) (ys : Bytes) :
    readLine (line ++ (kCRLF ++ ys)) = some (line, ys) := by
  rw [readLine, search_line h, Option.map_some, List.take_left, drop_line]

theorem statusOfNat_toNat (code : HttpStatusCode) : statusOfNat code.toNat = some code := by
  cases code <;> rfl

theorem decodeStatusLine_statusLine (r : HttpResponse) :
    decodeStatusLine r.statusLine = some (r.statusCode, r.statusMessage) := by
  have hspace : 32 ∉ decimal r.statusCode.toNat := notMem_decimal (by decide) _
  rw [decodeStatusLine, HttpResponse.statusLine, if_pos (List.prefix_append _ _), List.drop_left,
    find_append_cons hspace]
  simp only [parseDecimal_decimal, statusOfNat_toNat, Option.map_some]

/-- Printed fields and an empty line are read to their end. -/
theorem readFields_joinLines {fields : List (Bytes × Bytes)} (hcolon : ∀ f ∈ fields, 58 ∉ f.1)
    (hname : ∀ f ∈ fields, 10 ∉ f.1) (hvalue : ∀ f ∈ fields, 10 ∉ f.2) {n : ℕ}
    (hn : fields.length < n) (ys : Bytes) :
    readFields n (joinLines (fields.map fieldLine) ++ (kCRLF ++ ys)) = some (fields, ys) := by
  induction fields generalizing n with
  | nil =>
    cases n with
    | zero => cases hn
    | succ n =>
      have hline : readLine (kCRLF ++ ys) = some ([], ys) := readLine_line List.not_mem_nil ys
      simp only [readFields, List.map_nil, joinLines, List.flatMap_nil, List.nil_append, hline,
        Option.bind_some, if_true]
  | cons f fs ih =>
    cases n with
    | zero => cases hn
    | succ n =>
      have hlf : 10 ∉ fieldLine f := by
        simp [fieldLine, hname f List.mem_cons_self, hvalue f List.mem_cons_self]
      have hne : fieldLine f ≠ [] := by simp [fieldLine]
      have hrest := ih (fun g hg => hcolon g (List.mem_cons_of_mem _ hg))
        (fun g hg => hname g (List.mem_cons_of_mem _ hg))
        (fun g hg => hvalue g (List.mem_cons_of_mem _ hg)) (Nat.lt_of_succ_lt_succ hn)
      have hfind : find 58 (fieldLine f) = (f.1, 58 :: 32 :: f.2) :=
        find_append_cons (hcolon f List.mem_cons_self) _
      rw [List.map_cons, joinLines_cons, List.append_assoc, List.append_assoc, readFields,
        readLine_line hlf, Option.bind_some, if_neg hne]
      simp only [hfind, hrest, Option.map_some, dropSpace]

theorem headerMap_fields {r : HttpResponse} (hr : r.Printable) : headerMap r.fields = r.headers := by
  have hframing : r.framing.filter
      (fun f => decide (f.1 ≠ connection ∧ f.1 ≠ contentLength)) = [] := by
    unfold HttpResponse.framing
    split_ifs <;> simp
  have hentries : (r.headers.entries.map fun h => (h.1, h.2)).filter
      (fun f => decide (f.1 ≠ connection ∧ f.1 ≠ contentLength)) =
        r.headers.entries.map fun h => (h.1, h.2) := by
    rw [List.filter_eq_self]
    intro f hf
    obtain ⟨h, hh, rfl⟩ := List.mem_map.1 hf
    exact decide_eq_true ⟨hr.name_connection h hh, hr.name_contentLength h hh⟩
  have hfold : ∀ (l : List (Sigma fun _ : Bytes => Bytes)) (hl : l.NodupKeys),
      (l.map fun h => (h.1, h.2)).foldr (fun f (m : HeaderMap) => m.insert f.1 f.2) ∅ = ⟨l, hl⟩ := by
    intro l
    induction l with
    | nil => exact fun _ => rfl
    | cons h l ih =>
      intro hl
      have hl' := List.nodupKeys_cons.1 hl
      rw [List.map_cons, List.foldr_cons, ih hl'.2]
      exact AList.insert_of_notMem hl'.1
  rw [headerMap, HttpResponse.fields, List.filter_append, hframing, hentries, List.nil_append]
  exact hfold r.headers.entries r.headers.nodupKeys

theorem decodeBody_fields (r : HttpResponse) (rest : Bytes) :
    decodeBody r.fields (r.body ++ rest) =
      some (if r.closeConnection then (true, r.body ++ rest, []) else (false, r.body, rest)) := by
  have hne : contentLength ≠ connection := by decide
  have hclose : ascii "Keep-Alive" ≠ ascii "close" := by decide
  unfold decodeBody fieldValue HttpResponse.fields HttpResponse.framing
  by_cases h : r.closeConnection = true
  · simp [h]
  · simp [h, hne, hclose]

theorem framing_line (r : HttpResponse) {f : Bytes × Bytes} (hf : f ∈ r.framing) :
    58 ∉ f.1 ∧ 10 ∉ f.1 ∧ 10 ∉ f.2 := by
  have hlength : 10 ∉ decimal r.body.length := notMem_decimal (by decide) _
  have hname : 58 ∉ contentLength ∧ 10 ∉ contentLength := by decide
  unfold HttpResponse.framing at hf
  split_ifs at hf
  · rw [List.mem_singleton] at hf
    subst hf
    decide
  · rcases List.mem_cons.1 hf with rfl | hf
    · exact ⟨hname.1, hname.2, hlength⟩
    · rw [List.mem_singleton] at hf
      subst hf
      decide

/-- Every field is a line with a name in front of its colon. -/
theorem fields_line {r : HttpResponse} (hr : r.Printable) {f : Bytes × Bytes} (hf : f ∈ r.fields) :
    58 ∉ f.1 ∧ 10 ∉ f.1 ∧ 10 ∉ f.2 := by
  rcases List.mem_append.1 hf with hf | hf
  · exact framing_line r hf
  · obtain ⟨h, hh, rfl⟩ := List.mem_map.1 hf
    exact ⟨hr.name_colon h hh, hr.name_lf h hh, hr.value_lf h hh⟩

/-- There are fewer lines than bytes. -/
theorem length_lt_joinLines (fields : List (Bytes × Bytes)) (ys : Bytes) :
    fields.length < (joinLines (fields.map fieldLine) ++ (kCRLF ++ ys)).length := by
  have hcrlf : kCRLF.length = 2 := HttpContext.length_kCRLF
  induction fields with
  | nil =>
    rw [List.length_append, List.length_append, List.length_nil]
    omega
  | cons f fs ih =>
    rw [List.map_cons, joinLines_cons, List.length_cons]
    simp only [List.length_append] at ih ⊢
    omega

/-- **The decoder recovers a printed response.**  What follows it is left over, or belongs to the
body when the connection is to be closed. -/
theorem decode_bytes {r : HttpResponse} (hr : r.Printable) (rest : Bytes) :
    decode (r.bytes ++ rest) =
      some (if r.closeConnection then ({ r with body := r.body ++ rest }, []) else (r, rest)) := by
  have hstatus : 10 ∉ r.statusLine := by
    have hprefix : 10 ∉ ascii "HTTP/1.1 " := by decide
    have hdigits : 10 ∉ decimal r.statusCode.toNat := notMem_decimal (by decide) _
    simp [HttpResponse.statusLine, hprefix, hdigits, hr.message]
  have hline := readLine_line hstatus
    (joinLines (r.fields.map fieldLine) ++ (kCRLF ++ (r.body ++ rest)))
  have hfields := readFields_joinLines (fun f hf => (fields_line hr hf).1)
    (fun f hf => (fields_line hr hf).2.1) (fun f hf => (fields_line hr hf).2.2)
    (length_lt_joinLines r.fields (r.body ++ rest)) (r.body ++ rest)
  rw [HttpResponse.bytes_eq hr]
  simp only [List.append_assoc]
  unfold decode
  rw [hline]
  simp only [Option.bind_eq_bind, Option.bind_some, decodeStatusLine_statusLine, hfields,
    decodeBody_fields, headerMap_fields hr]
  by_cases h : r.closeConnection = true
  · simp [h]
  · rw [Bool.not_eq_true] at h
    cases r
    simp_all

/-- Responses on a connection that is kept alive are told apart. -/
theorem decodeUpTo_flatMap {rs : List HttpResponse}
    (hrs : ∀ r ∈ rs, r.Printable ∧ r.closeConnection = false) {n : ℕ} (hn : rs.length ≤ n) :
    decodeUpTo n (rs.flatMap HttpResponse.bytes) = some rs := by
  induction rs generalizing n with
  | nil => cases n <;> rfl
  | cons r rs ih =>
    obtain ⟨hr, halive⟩ := hrs r List.mem_cons_self
    obtain ⟨m, rfl⟩ : ∃ m, n = m + 1 := Nat.exists_eq_add_one.2 (Nat.lt_of_lt_of_le (Nat.succ_pos _) hn)
    have hrest := ih (fun q hq => hrs q (List.mem_cons_of_mem _ hq)) (Nat.le_of_succ_le_succ hn)
    have hdecode := decode_bytes hr (rs.flatMap HttpResponse.bytes)
    rw [List.flatMap_cons]
    cases hbytes : r.bytes with
    | nil => exact absurd hbytes r.bytes_ne_nil
    | cons b bs =>
      rw [hbytes, List.cons_append] at hdecode
      rw [List.cons_append, decodeUpTo, hdecode]
      simp [halive, hrest]

theorem length_le_flatMap (rs : List HttpResponse) :
    rs.length ≤ (rs.flatMap HttpResponse.bytes).length := by
  induction rs with
  | nil => exact Nat.zero_le _
  | cons r rs ih =>
    have hpos := List.length_pos_iff.2 r.bytes_ne_nil
    rw [List.flatMap_cons, List.length_append, List.length_cons]
    omega

theorem readable_foldl_appendToBuffer (rs : List HttpResponse) (output : Buffer) :
    (rs.foldl (fun b r => r.appendToBuffer b) output).readable =
      output.readable ++ rs.flatMap HttpResponse.bytes := by
  induction rs generalizing output with
  | nil => simp
  | cons r rs ih =>
    rw [List.foldl_cons, ih, HttpResponse.readable_appendToBuffer, List.flatMap_cons,
      List.append_assoc]

/-- **Responses are uniquely decodable.**  From what `appendToBuffer` adds to a buffer, and any
bytes behind it, the decoder recovers a printable response; and it splits what a sequence of
keep-alive responses adds into the same sequence. -/
theorem responses_decodable :
    (∀ (r : HttpResponse) (output : Buffer) (rest : Bytes), r.Printable →
      ∃ out, (r.appendToBuffer output).readable = output.readable ++ out ∧
        decode (out ++ rest) =
          some (if r.closeConnection then ({ r with body := r.body ++ rest }, [])
            else (r, rest))) ∧
    ∀ (rs : List HttpResponse) (output : Buffer),
      (∀ r ∈ rs, r.Printable ∧ r.closeConnection = false) →
      ∃ out, (rs.foldl (fun b r => r.appendToBuffer b) output).readable =
          output.readable ++ out ∧
        decodeAll out = some rs := by
  refine ⟨fun r output rest hr => ?_, fun rs output hrs => ?_⟩
  · exact ⟨r.bytes, r.readable_appendToBuffer output, decode_bytes hr rest⟩
  · refine ⟨_, readable_foldl_appendToBuffer rs output, ?_⟩
    exact decodeUpTo_flatMap hrs (length_le_flatMap rs)

/-- A body that looks like a header section. -/
def found : HttpResponse where
  headers := (∅ : HeaderMap).insert (ascii "X") (ascii " a:b")
  statusCode := .k404NotFound
  closeConnection := false
  statusMessage := ascii "Not Found"
  body := ascii "Content-Length: 9\r\n\r\n"

theorem printable_found : found.Printable where
  message := by decide
  name_lf := by decide
  name_colon := by decide
  name_connection := by decide
  name_contentLength := by decide
  value_lf := by decide
  body := by decide

theorem responses_decodable_found :
    ∃ out, ([found, found].foldl (fun b r => r.appendToBuffer b) (Buffer.new 8)).readable =
        (Buffer.new 8).readable ++ out ∧
      decodeAll out = some [found, found] := by
  refine responses_decodable.2 [found, found] (Buffer.new 8) fun r hr => ?_
  have heq : r = found := by simpa using hr
  subst heq
  exact ⟨printable_found, rfl⟩

end ResponseDecoder

end TinyNetwork
