import TinyNetwork.Http.HeaderSection

/-!
# Parsing undoes printing of a request head

A `PrintedHead` is a method, a path, perhaps a query, a version and any number of header fields,
each printed with blanks of its own around the value.  `parseRequest_print` says that a fresh
parser recovers all of it from the printed bytes, and leaves what follows them.
-/

namespace TinyNetwork

open Bytes Search Incremental HttpContext
open HttpRequest (Method Version headerValue)

/-- A header field and the blanks printed around its value.  A blank is anything `isspace` accepts
but LF. -/
structure PrintedHeader where
  name : Bytes
  before : Bytes
  value : Bytes
  after : Bytes
  colon_notMem : 58 ∉ name
  lf_notMem_name : 10 ∉ name
  lf_notMem_value : 10 ∉ value
  before_blank : ∀ b ∈ before, isspace b = true ∧ b ≠ 10
  after_blank : ∀ b ∈ after, isspace b = true ∧ b ≠ 10
  head_value : ∀ b ∈ value.head?, isspace b = false
  last_value : ∀ b ∈ value.getLast?, isspace b = false

/-- A request head; `query` is what follows the question mark. -/
structure PrintedHead where
  method : Method
  path : Bytes
  query : Option Bytes
  version : Version
  headers : List PrintedHeader
  method_ne : method ≠ .kInvalid
  version_ne : version ≠ .kUnknown
  mark_notMem : 63 ∉ path
  space_notMem_path : 32 ∉ path
  lf_notMem_path : 10 ∉ path
  space_notMem_query : ∀ q ∈ query, 32 ∉ q
  lf_notMem_query : ∀ q ∈ query, 10 ∉ q

namespace PrintedHeader

def bytes (h : PrintedHeader) : Bytes := h.name ++ 58 :: (h.before ++ (h.value ++ h.after))

end PrintedHeader

namespace PrintedHead

/-- The question mark and what follows it. -/
def queryBytes (h : PrintedHead) : Bytes :=
  match h.query with
  | some q => 63 :: q
  | none => []

def requestLine (h : PrintedHead) : Bytes :=
  h.method.bytes ++ 32 :: ((h.path ++ h.queryBytes) ++ 32 :: h.version.bytes)

def bytes (h : PrintedHead) : Bytes :=
  h.requestLine ++ (kCRLF ++ (joinLines (h.headers.map PrintedHeader.bytes) ++ kCRLF))

/-- The value of the last field with a name. -/
def lastValue (h : PrintedHead) (name : Bytes) : Option Bytes :=
  (h.headers.reverse.find? fun f => decide (f.name = name)).map PrintedHeader.value

end PrintedHead

/-! ### Trimming -/

theorem dropWhile_of_head {p : UInt8 → Bool} {bs : Bytes} (h : ∀ b ∈ bs.head?, p b = false) :
    bs.dropWhile p = bs := by
  cases bs with
  | nil => rfl
  | cons b bs => rw [List.dropWhile_cons_of_neg (by simp [h b rfl])]

/-- Blanks in front of a value that begins with none are dropped, unless the value is empty. -/
theorem dropWhile_blanks {before value : Bytes} (hbefore : ∀ b ∈ before, isspace b = true)
    (hvalue : ∀ b ∈ value.head?, isspace b = false) :
    (before ++ value).dropWhile isspace = value := by
  rw [List.dropWhile_append_of_pos hbefore, dropWhile_of_head hvalue]

/-- What `addHeader` keeps of a printed value. -/
theorem headerValue_print (h : PrintedHeader) :
    headerValue (h.before ++ (h.value ++ h.after)) = h.value := by
  have hbefore : ∀ b ∈ h.before, isspace b = true := fun b hb => (h.before_blank b hb).1
  have hafter : ∀ b ∈ h.after, isspace b = true := fun b hb => (h.after_blank b hb).1
  unfold headerValue
  cases hv : h.value with
  | nil =>
    have hall : (h.before ++ ([] ++ h.after)).dropWhile isspace = [] := by
      rw [List.dropWhile_eq_nil_iff]
      intro b hb
      exact (List.mem_append.1 hb).elim (hbefore b) (hafter b)
    rw [hall]
    rfl
  | cons c v =>
    have hhead : ∀ b ∈ ((c :: v) ++ h.after).head?, isspace b = false := by
      intro b hb
      exact h.head_value b (by rw [hv]; exact hb)
    have hlast : ∀ b ∈ (c :: v).reverse.head?, isspace b = false := by
      intro b hb
      rw [List.head?_reverse] at hb
      exact h.last_value b (by rw [hv]; exact hb)
    rw [dropWhile_blanks hbefore hhead, List.rdropWhile, List.reverse_append,
      dropWhile_blanks (by simpa using hafter) hlast, List.reverse_reverse]

/-! ### The lines of a printed head -/

theorem isLine_of_notMem {line : Bytes} (h : 10 ∉ line) : IsLine line := fun hocc =>
  h (hocc.subset (by decide))

namespace PrintedHeader

theorem find_colon (h : PrintedHeader) :
    find 58 h.bytes = (h.name, 58 :: (h.before ++ (h.value ++ h.after))) :=
  find_append_cons h.colon_notMem _

theorem headerName_bytes (h : PrintedHeader) : headerName h.bytes = h.name := by
  rw [headerName, h.find_colon]

theorem headerRest_bytes (h : PrintedHeader) :
    headerRest h.bytes = h.before ++ (h.value ++ h.after) := by
  rw [headerRest, h.find_colon, List.tail_cons]

theorem isLine_bytes (h : PrintedHeader) : IsLine h.bytes := by
  have hbefore : 10 ∉ h.before := fun hmem => (h.before_blank 10 hmem).2 rfl
  have hafter : 10 ∉ h.after := fun hmem => (h.after_blank 10 hmem).2 rfl
  apply isLine_of_notMem
  simp [bytes, h.lf_notMem_name, h.lf_notMem_value, hbefore, hafter]

end PrintedHeader

namespace PrintedHead

theorem space_notMem_target (h : PrintedHead) : 32 ∉ h.path ++ h.queryBytes := by
  have hquery : 32 ∉ h.queryBytes := by
    unfold queryBytes
    cases hq : h.query with
    | none => exact List.not_mem_nil
    | some q => simp [h.space_notMem_query q hq]
  simp [h.space_notMem_path, hquery]

theorem isLine_requestLine (h : PrintedHead) : IsLine h.requestLine := by
  have hquery : 10 ∉ h.queryBytes := by
    unfold queryBytes
    cases hq : h.query with
    | none => exact List.not_mem_nil
    | some q => simp [h.lf_notMem_query q hq]
  apply isLine_of_notMem
  simp [requestLine, h.method.notMem_bytes.2, h.version.lf_notMem_bytes, h.lf_notMem_path, hquery]

/-- The target splits at its first question mark. -/
theorem find_mark (h : PrintedHead) : find 63 (h.path ++ h.queryBytes) = (h.path, h.queryBytes) := by
  unfold queryBytes
  cases h.query with
  | none => rw [List.append_nil, find_of_notMem h.mark_notMem]
  | some q => exact find_append_cons h.mark_notMem q

/-- The request that the request line makes. -/
def lineRequest (h : PrintedHead) : HttpRequest where
  method := h.method
  version := h.version
  path := h.path
  query := h.queryBytes

theorem processRequestLine_requestLine (h : PrintedHead) :
    ({} : HttpRequest).processRequestLine h.requestLine = (true, h.lineRequest) := by
  rw [requestLine, HttpRequest.processRequestLine_print h.method_ne h.version_ne
    h.space_notMem_target, h.find_mark]
  rfl

/-- A printed head is a header section. -/
def toSection (h : PrintedHead) : HeaderSection where
  requestLine := h.requestLine
  headers := h.headers.map PrintedHeader.bytes
  valid := ⟨h.method, h.path ++ h.queryBytes, h.version, h.method_ne, h.version_ne,
    h.space_notMem_target, rfl⟩
  requestLine_isLine := h.isLine_requestLine
  headers_isLine := by
    intro line hline
    obtain ⟨f, -, rfl⟩ := List.mem_map.1 hline
    exact f.isLine_bytes
  colon_mem := by
    intro line hline
    obtain ⟨f, -, rfl⟩ := List.mem_map.1 hline
    simp [PrintedHeader.bytes]

end PrintedHead

/-! ### The header map -/

/-- Header lines change nothing but the map. -/
theorem addHeaders_eq (r : HttpRequest) (hs : List Bytes) :
    addHeaders r hs = { r with headers := (addHeaders r hs).headers } := by
  induction hs generalizing r with
  | nil => rfl
  | cons h hs ih =>
    rw [addHeaders, List.foldl_cons, ← addHeaders, ih]
    rfl

/-- The map binds a name to the value of its last line. -/
theorem lookup_addHeaders (r : HttpRequest) (hs : List PrintedHeader) (name : Bytes)
    (hr : r.headers = ∅) :
    (addHeaders r (hs.map PrintedHeader.bytes)).headers.lookup name =
      (hs.reverse.find? fun f => decide (f.name = name)).map PrintedHeader.value := by
  induction hs using List.reverseRecOn with
  | nil =>
    show r.headers.lookup name = none
    rw [hr, AList.lookup_empty]
  | append_singleton hs h ih =>
    have hadd : (addHeaders r ((hs ++ [h]).map PrintedHeader.bytes)).headers =
        (addHeaders r (hs.map PrintedHeader.bytes)).headers.insert h.name h.value := by
      simp [addHeaders, HttpRequest.addHeader, h.headerName_bytes, h.headerRest_bytes,
        headerValue_print]
    rw [hadd, List.reverse_append, List.reverse_singleton, List.singleton_append, List.find?_cons]
    by_cases hname : h.name = name
    · subst hname
      rw [AList.lookup_insert]
      simp
    · rw [AList.lookup_insert_ne (Ne.symm hname), ih]
      simp [hname]

namespace HttpContext

/-- **Parsing undoes printing.**  On a buffer that holds a printed head and any bytes `rest`, a
fresh parser gets all: method, version, path, query and a map that binds every name to the value of
its last field; `rest` is left in the buffer. -/
theorem parseRequest_print (head : PrintedHead) (rest : Bytes) (buf : Buffer) (t : TimeStamp)
    (hbuf : buf.readable = head.bytes ++ rest) :
    ∃ ctx buf', ({} : HttpContext).parseRequest buf t = some (true, ctx, buf') ∧
      ctx.gotAll = true ∧ ctx.request.method = head.method ∧
      ctx.request.version = head.version ∧ ctx.request.path = head.path ∧
      ctx.request.query = head.queryBytes ∧
      (∀ name, ctx.request.headers.lookup name = head.lastValue name) ∧ buf'.readable = rest := by
  obtain ⟨ok, ctx, buf', hparse, -, hread⟩ := parseRequest_eq_read {} buf t (.inl rfl)
  have hfresh : ({} : HttpContext).untimed = {} := rfl
  have hsplit : buf.readable = head.toSection.lines ++ ([] ++ (kCRLF ++ rest)) := by
    rw [hbuf]
    simp [PrintedHead.bytes, PrintedHead.toSection, HeaderSection.lines]
  rw [hfresh, read_eq_gotAll_iff.2 ⟨head.toSection, [], isLine_nil, List.not_mem_nil, hsplit, rfl⟩,
    Prod.mk.injEq, Prod.mk.injEq] at hread
  obtain ⟨hverdict, hctx, hrest⟩ := hread
  have hstate : ctx.state = .kGotAll := congrArg HttpContext.state hctx.symm
  have hgot : ctx.gotAll = true := by simp [gotAll, hstate]
  have hok : ok = true := by
    cases ok with
    | true => rfl
    | false => simp [verdict] at hverdict
  subst hok
  have hrequest : ctx.request.setReceiveTime 0 = head.toSection.request :=
    (congrArg HttpContext.request hctx).symm
  have hline : head.toSection.request =
      addHeaders head.lineRequest (head.headers.map PrintedHeader.bytes) := by
    rw [HeaderSection.request, PrintedHead.toSection, head.processRequestLine_requestLine]
  rw [hline, addHeaders_eq] at hrequest
  refine ⟨ctx, buf', hparse, hgot, congrArg HttpRequest.method hrequest,
    congrArg HttpRequest.version hrequest, congrArg HttpRequest.path hrequest,
    congrArg HttpRequest.query hrequest, fun name => ?_, hrest.symm⟩
  have hheaders := congrArg (fun r => r.headers.lookup name) hrequest
  exact hheaders.trans (lookup_addHeaders _ _ name rfl)

theorem blank_of_all {bs : Bytes} (h : bs.all (fun b => isspace b && b != 10) = true) :
    ∀ b ∈ bs, isspace b = true ∧ b ≠ 10 := by
  simpa using h

theorem notSpace_of_all {o : Option UInt8} (h : o.all (fun b => !isspace b) = true) :
    ∀ b ∈ o, isspace b = false := by
  rintro b rfl
  simpa using h

/-- A head with a question mark in the query, a field that occurs twice and an empty value. -/
def printedHead : PrintedHead where
  method := .kPut
  path := ascii "/a"
  query := some (ascii "b?c")
  version := .kHttp10
  headers := [
    { name := ascii "X"
      before := ascii " "
      value := ascii "1:2"
      after := []
      colon_notMem := by decide
      lf_notMem_name := by decide
      lf_notMem_value := by decide
      before_blank := blank_of_all rfl
      after_blank := blank_of_all rfl
      head_value := notSpace_of_all rfl
      last_value := notSpace_of_all rfl },
    { name := ascii "X"
      before := ascii "  "
      value := []
      after := ascii " "
      colon_notMem := by decide
      lf_notMem_name := by decide
      lf_notMem_value := by decide
      before_blank := blank_of_all rfl
      after_blank := blank_of_all rfl
      head_value := notSpace_of_all rfl
      last_value := notSpace_of_all rfl }]
  method_ne := by decide
  version_ne := by decide
  mark_notMem := by decide
  space_notMem_path := by decide
  lf_notMem_path := by decide
  space_notMem_query := by decide
  lf_notMem_query := by decide

theorem parseRequest_print_twice :
    ∃ ctx buf', ({} : HttpContext).parseRequest
        ((Buffer.new 16).append (printedHead.bytes ++ ascii "more")) 7 = some (true, ctx, buf') ∧
      ctx.request.path = ascii "/a" ∧ ctx.request.query = ascii "?b?c" ∧
      ctx.request.headers.lookup (ascii "X") = some [] ∧ buf'.readable = ascii "more" := by
  have hbuf : ((Buffer.new 16).append (printedHead.bytes ++ ascii "more")).readable =
      printedHead.bytes ++ ascii "more" := by
    rw [Buffer.readable_append, Buffer.readable_new, List.nil_append]
  obtain ⟨ctx, buf', hparse, -, -, -, hpath, hquery, hheaders, hrest⟩ :=
    parseRequest_print printedHead (ascii "more") _ 7 hbuf
  refine ⟨ctx, buf', hparse, hpath, hquery, ?_, hrest⟩
  rw [hheaders]
  decide

end HttpContext

end TinyNetwork
