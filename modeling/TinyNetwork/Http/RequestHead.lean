import TinyNetwork.Http.HttpContext

/-!
# Well-formed request heads and what the parser makes of them

A `RequestHead` is a request line and header lines that print to bytes which are a well-formed
head; the conditions are fields, so every value of the type prints well.  `request` is the request
it stands for.

`read_head`: a fresh parser reads the printed head to the end, and no further.
`read_headers_cut`: cut off somewhere behind the request line, the head leaves the parser waiting
at the start of a line.  `read_fresh_headers`: there a fresh parser, which expects a request line,
rejects the next line.
-/

namespace TinyNetwork

open Bytes Search Incremental
open HttpRequest (Method Version)

/-- The bytes of a method. -/
def HttpRequest.Method.bytes (m : Method) : Bytes := ({ method := m } : HttpRequest).methodString

/-- The bytes of a version. -/
def HttpRequest.Version.bytes : Version → Bytes
  | .kHttp10 => ascii "HTTP/1.0"
  | .kHttp11 => ascii "HTTP/1.1"
  | .kUnknown => []

theorem HttpRequest.Method.notMem_bytes (m : Method) : 32 ∉ m.bytes ∧ 10 ∉ m.bytes := by
  cases m <;> decide

theorem HttpRequest.Version.lf_notMem_bytes (v : Version) : 10 ∉ v.bytes := by
  cases v <;> decide

/-- A request line without its CRLF. -/
structure RequestLine where
  method : Method
  target : Bytes
  version : Version
  method_ne : method ≠ .kInvalid
  version_ne : version ≠ .kUnknown
  space_notMem : 32 ∉ target
  lf_notMem : 10 ∉ target

/-- A header line without its CRLF, `name ':' rest`. -/
structure HeaderLine where
  name : Bytes
  rest : Bytes
  colon_notMem : 58 ∉ name
  space_notMem : 32 ∉ name
  lf_notMem_name : 10 ∉ name
  lf_notMem_rest : 10 ∉ rest

structure RequestHead where
  requestLine : RequestLine
  headers : List HeaderLine

namespace RequestLine

/-- The fields of a request that the line determines. -/
def request (l : RequestLine) : HttpRequest where
  method := l.method
  version := l.version
  path := (find 63 l.target).1
  query := (find 63 l.target).2

def bytes (l : RequestLine) : Bytes :=
  l.method.bytes ++ 32 :: (l.target ++ 32 :: l.version.bytes)

end RequestLine

namespace HeaderLine

def bytes (h : HeaderLine) : Bytes := h.name ++ 58 :: h.rest

end HeaderLine

/-- The header lines and the empty line. -/
def headerBytes (hs : List HeaderLine) : Bytes := hs.flatMap (fun h => h.bytes ++ kCRLF) ++ kCRLF

namespace RequestHead

def bytes (h : RequestHead) : Bytes := h.requestLine.bytes ++ (kCRLF ++ headerBytes h.headers)

/-- The request a head stands for; the receive time is left at zero. -/
def request (h : RequestHead) : HttpRequest :=
  h.headers.foldl (fun r l => r.addHeader l.name l.rest) h.requestLine.request

end RequestHead

/-! ### Lines -/

theorem headerBytes_cons (h : HeaderLine) (hs : List HeaderLine) :
    headerBytes (h :: hs) = h.bytes ++ (kCRLF ++ headerBytes hs) := by
  simp [headerBytes]

/-- A line without LF ends where its CRLF begins. -/
theorem search_line {line : Bytes} (h : 10 ∉ line) (ys : Bytes) :
    search kCRLF (line ++ (kCRLF ++ ys)) = some line.length := by
  refine search_append_self (fun hocc => ?_) ys
  have hmem : (10 : UInt8) ∈ line ++ kCRLF.dropLast := hocc.subset (by decide)
  rcases List.mem_append.1 hmem with hmem | hmem
  · exact h hmem
  · exact absurd hmem (by decide)

/-- Without its last byte, the line and its CRLF hold no CRLF. -/
theorem search_cut_line {line p : Bytes} (h : 10 ∉ line) (hp : p <+: line ++ kCRLF)
    (hlen : p.length < line.length + 2) : search kCRLF p = none := by
  rw [search_eq_none_iff]
  intro hocc
  have hcut : p <+: line ++ kCRLF.dropLast := by
    refine List.prefix_of_prefix_length_le hp ?_ ?_
    · exact (List.prefix_append_right_inj _).2 kCRLF.dropLast_prefix
    · simp only [List.length_append, List.length_dropLast, HttpContext.length_kCRLF]
      omega
  have hmem : (10 : UInt8) ∈ line ++ kCRLF.dropLast :=
    (hocc.trans hcut.isInfix).subset (by decide)
  rcases List.mem_append.1 hmem with hmem | hmem
  · exact h hmem
  · exact absurd hmem (by decide)

namespace HttpRequest

/-- A printed request line is taken; the target is any string without a space. -/
theorem processRequestLine_print {m : Method} {target : Bytes} {v : Version}
    (hm : m ≠ .kInvalid) (hv : v ≠ .kUnknown) (htarget : 32 ∉ target) :
    ({} : HttpRequest).processRequestLine (m.bytes ++ 32 :: (target ++ 32 :: v.bytes)) =
      (true, { method := m, version := v, path := (find 63 target).1,
               query := (find 63 target).2 }) := by
  have hspace : 32 ∉ m.bytes := m.notMem_bytes.1
  have hof : Method.ofBytes m.bytes = m := by
    cases hm' : m with
    | kInvalid => exact absurd hm' hm
    | _ => decide
  have hversion : ∀ r : HttpRequest,
      (if v.bytes.length = 8 ∧ v.bytes.take 7 = ascii "HTTP/1." then
        if v.bytes.getLast? = some 49 then (true, r.setVersion .kHttp11)
        else if v.bytes.getLast? = some 48 then (true, r.setVersion .kHttp10)
        else (false, r)
      else (false, r)) = (true, r.setVersion v) := by
    intro r
    cases hv' : v with
    | kUnknown => exact absurd hv' hv
    | kHttp10 => rw [if_pos (by decide), if_neg (by decide), if_pos (by decide)]
    | kHttp11 => rw [if_pos (by decide), if_pos (by decide)]
  have hsplit := find_fst_append_snd 63 target
  unfold HttpRequest.processRequestLine
  rw [find_append_cons hspace]
  simp only [HttpRequest.setMethod, hof, hm, ne_eq, not_false_iff, decide_true,
    find_append_cons htarget, hversion]
  -- the path and the query, with or without a question mark
  rcases hq : find 63 target with ⟨path, _ | ⟨qm, query⟩⟩
  · rw [hq, List.append_nil] at hsplit
    simp only at hsplit
    simp only [HttpRequest.setPath, HttpRequest.setVersion, hsplit]
  · simp only [HttpRequest.setPath, HttpRequest.setQuery, HttpRequest.setVersion]

end HttpRequest

namespace RequestLine

theorem lf_notMem_bytes (l : RequestLine) : 10 ∉ l.bytes := by
  simp [bytes, l.method.notMem_bytes.2, l.lf_notMem, l.version.lf_notMem_bytes]

/-- The request line of a fresh request is taken. -/
theorem processRequestLine_bytes (l : RequestLine) :
    ({} : HttpRequest).processRequestLine l.bytes = (true, l.request) :=
  HttpRequest.processRequestLine_print l.method_ne l.version_ne l.space_notMem

end RequestLine

/-- No method name holds a colon. -/
theorem ofBytes_eq_kInvalid {m : Bytes} (h : 58 ∈ m) : Method.ofBytes m = .kInvalid := by
  unfold Method.ofBytes
  split_ifs with h1 h2 h3 h4 h5
  · exact absurd (h1 ▸ h) (by decide)
  · exact absurd (h2 ▸ h) (by decide)
  · exact absurd (h3 ▸ h) (by decide)
  · exact absurd (h4 ▸ h) (by decide)
  · exact absurd (h5 ▸ h) (by decide)
  · rfl

namespace HeaderLine

theorem lf_notMem_bytes (h : HeaderLine) : 10 ∉ h.bytes := by
  simp [bytes, h.lf_notMem_name, h.lf_notMem_rest]

theorem find_colon (h : HeaderLine) : find 58 h.bytes = (h.name, 58 :: h.rest) :=
  find_append_cons h.colon_notMem h.rest

/-- A header line is no request line: the first word, if there is one, holds the colon. -/
theorem processRequestLine_bytes (h : HeaderLine) (r : HttpRequest) :
    (r.processRequestLine h.bytes).1 = false := by
  rcases hsp : find 32 h.bytes with ⟨m, _ | ⟨sp, rest⟩⟩
  · simp only [HttpRequest.processRequestLine, hsp]
  · have hcolon : 58 ∈ m := by
      -- the name lacks a space, so the colon stands in front of the first one
      have hm : m = h.name ++ (find 32 (58 :: h.rest)).1 := by
        have hfst := congrArg Prod.fst hsp
        rw [find_eq, bytes, List.takeWhile_append_of_pos] at hfst
        · rw [find_eq]
          exact hfst.symm
        · intro x hx
          rw [bne_iff_ne]
          rintro rfl
          exact h.space_notMem hx
      have hhead : (find 32 (58 :: h.rest)).1 = 58 :: (find 32 h.rest).1 := by
        simp [find_eq]
      rw [hm, hhead]
      simp
    simp only [HttpRequest.processRequestLine, hsp, HttpRequest.setMethod,
      ofBytes_eq_kInvalid hcolon, ne_eq, not_true_eq_false, decide_false]

end HeaderLine

/-! ### The parser on a head -/

open HttpContext

/-- One header line is read. -/
theorem nextMove_headerLine (r : HttpRequest) (h : HeaderLine) (ys : Bytes) :
    nextMove ⟨.kExpectHeaders, r⟩ (h.bytes ++ (kCRLF ++ ys)) =
      .more ⟨.kExpectHeaders, r.addHeader h.name h.rest⟩ ys := by
  have hdrop : (h.bytes ++ (kCRLF ++ ys)).drop (h.bytes.length + 2) = ys := by
    rw [← List.append_assoc, List.drop_left' (by simp [length_kCRLF])]
  simp only [nextMove, search_line h.lf_notMem_bytes, List.take_left, h.find_colon, hdrop]

/-- The empty line ends the head. -/
theorem nextMove_emptyLine (r : HttpRequest) (ys : Bytes) :
    nextMove ⟨.kExpectHeaders, r⟩ (kCRLF ++ ys) = .stop true ⟨.kGotAll, r⟩ ys := by
  have hsearch : search kCRLF (kCRLF ++ ys) = some 0 := search_eq_zero (List.prefix_append _ _)
  have hdrop : (kCRLF ++ ys).drop 2 = ys := rfl
  simp only [nextMove, hsearch, List.take_zero, find_of_notMem (List.not_mem_nil), zero_add, hdrop]

/-- The request line is read. -/
theorem nextMove_requestLine (l : RequestLine) (ys : Bytes) :
    nextMove {} (l.bytes ++ (kCRLF ++ ys)) = .more ⟨.kExpectHeaders, l.request⟩ ys := by
  have hdrop : (l.bytes ++ (kCRLF ++ ys)).drop (l.bytes.length + 2) = ys := by
    rw [← List.append_assoc, List.drop_left' (by simp [length_kCRLF])]
  simp only [nextMove, search_line l.lf_notMem_bytes, List.take_left,
    l.processRequestLine_bytes, hdrop]

theorem read_requestLine (l : RequestLine) (ys : Bytes) :
    lineReader.read {} (l.bytes ++ (kCRLF ++ ys)) =
      lineReader.read ⟨.kExpectHeaders, l.request⟩ ys :=
  Reader.read_of_more (nextMove_requestLine l ys)

theorem read_headers (hs : List HeaderLine) (r : HttpRequest) (ys : Bytes) :
    lineReader.read ⟨.kExpectHeaders, r⟩ (headerBytes hs ++ ys) =
      (some true, ⟨.kGotAll, hs.foldl (fun r l => r.addHeader l.name l.rest) r⟩, ys) := by
  induction hs generalizing r with
  | nil => exact Reader.read_of_stop (nextMove_emptyLine r ys)
  | cons h hs ih =>
    rw [headerBytes_cons, List.append_assoc, List.append_assoc]
    exact (Reader.read_of_more (nextMove_headerLine r h _)).trans (ih _)

/-- **The parser reads a head** to its end and leaves what follows. -/
theorem read_head (h : RequestHead) (ys : Bytes) :
    lineReader.read {} (h.bytes ++ ys) = (some true, ⟨.kGotAll, h.request⟩, ys) := by
  rw [RequestHead.bytes, List.append_assoc, List.append_assoc, read_requestLine, read_headers]
  rfl

/-- Without a CRLF a fresh parser waits. -/
theorem read_fresh_of_search_none {xs : Bytes} (h : search kCRLF xs = none) :
    lineReader.read {} xs = (none, {}, xs) := by
  refine Reader.read_of_wait ?_
  simp only [lineReader_next, nextMove, h]

/-- A cut in or behind a line: in it, the piece holds no CRLF; behind it, the line is whole. -/
theorem cut_line {line tail p q : Bytes} (h : 10 ∉ line)
    (hsplit : p ++ q = line ++ (kCRLF ++ tail)) :
    (p.length < line.length + 2 ∧ search kCRLF p = none) ∨
      ∃ p', p = line ++ (kCRLF ++ p') ∧ p' ++ q = tail := by
  have hp : p <+: line ++ kCRLF ++ tail := ⟨q, by rw [hsplit, List.append_assoc]⟩
  have hline : line ++ kCRLF <+: line ++ kCRLF ++ tail := List.prefix_append _ _
  have hlen : (line ++ kCRLF).length = line.length + 2 := by simp [length_kCRLF]
  by_cases hshort : p.length < line.length + 2
  · have hcut : p <+: line ++ kCRLF := List.prefix_of_prefix_length_le hp hline (by omega)
    exact .inl ⟨hshort, search_cut_line h hcut hshort⟩
  · obtain ⟨p', rfl⟩ := List.prefix_of_prefix_length_le hline hp (by omega)
    refine .inr ⟨p', by rw [List.append_assoc], ?_⟩
    simpa using hsplit

/-- Cut off before its end, the header section leaves the parser waiting at the start of a line:
the unread bytes hold no CRLF, and they begin what is left of the section. -/
theorem read_headers_cut {hs : List HeaderLine} {p q : Bytes} (r : HttpRequest)
    (hsplit : p ++ q = headerBytes hs) (hq : q ≠ []) :
    ∃ ctx rest hs', lineReader.read ⟨.kExpectHeaders, r⟩ p = (none, ctx, rest) ∧
      search kCRLF rest = none ∧ rest ++ q = headerBytes hs' := by
  have wait {p : Bytes} {r : HttpRequest} (h : search kCRLF p = none) :
      lineReader.read ⟨.kExpectHeaders, r⟩ p = (none, ⟨.kExpectHeaders, r⟩, p) :=
    Reader.read_of_wait (by simp only [lineReader_next, nextMove, h])
  induction hs generalizing p r with
  | nil =>
    have hblank : p ++ q = [] ++ (kCRLF ++ []) := hsplit
    rcases cut_line List.not_mem_nil hblank with ⟨-, hnone⟩ | ⟨p', -, hnil⟩
    · exact ⟨_, p, [], wait hnone, hnone, hsplit⟩
    · exact absurd (List.append_eq_nil_iff.1 hnil).2 hq
  | cons h hs ih =>
    rw [headerBytes_cons] at hsplit
    rcases cut_line h.lf_notMem_bytes hsplit with ⟨-, hnone⟩ | ⟨p', rfl, htail⟩
    · exact ⟨_, p, h :: hs, wait hnone, hnone, by rw [hsplit, headerBytes_cons]⟩
    · obtain ⟨ctx, rest, hs', hread, hnone, hrest⟩ := ih (r.addHeader h.name h.rest) htail
      refine ⟨ctx, rest, hs', ?_, hnone, hrest⟩
      exact (Reader.read_of_more (nextMove_headerLine r h p')).trans hread

/-- A line that is no request line is rejected where one is expected, and stays unread. -/
theorem read_badRequestLine {line ys : Bytes}
    (hline : search kCRLF (line ++ (kCRLF ++ ys)) = some line.length)
    (hbad : (({} : HttpRequest).processRequestLine line).1 = false) :
    ∃ ctx, lineReader.read {} (line ++ (kCRLF ++ ys)) =
      (some false, ctx, line ++ (kCRLF ++ ys)) := by
  rcases hp : ({} : HttpRequest).processRequestLine line with ⟨_ | _, request⟩
  · refine ⟨{ request := request }, Reader.read_of_stop ?_⟩
    simp only [lineReader_next, nextMove, hline, List.take_left, hp]
  · rw [hp] at hbad
    cases hbad

/-- Where a request line is expected, the header section is rejected at its first CRLF. -/
theorem read_fresh_headers {hs : List HeaderLine} {p q : Bytes}
    (hsplit : p ++ q = headerBytes hs) :
    search kCRLF p = none ∨ ∃ ctx, lineReader.read {} p = (some false, ctx, p) := by
  cases hs with
  | nil =>
    have hblank : p ++ q = [] ++ (kCRLF ++ []) := hsplit
    rcases cut_line List.not_mem_nil hblank with ⟨-, hnone⟩ | ⟨p', rfl, -⟩
    · exact .inl hnone
    · exact .inr (read_badRequestLine (search_line List.not_mem_nil p') rfl)
  | cons h hs =>
    rw [headerBytes_cons] at hsplit
    rcases cut_line h.lf_notMem_bytes hsplit with ⟨-, hnone⟩ | ⟨p', rfl, -⟩
    · exact .inl hnone
    · exact .inr (read_badRequestLine (search_line h.lf_notMem_bytes p')
        (h.processRequestLine_bytes {}))

/-- The header section ends with a CRLF. -/
theorem search_headerBytes_ne_none (hs : List HeaderLine) :
    search kCRLF (headerBytes hs) ≠ none := by
  rw [Ne, search_eq_none_iff, not_not]
  exact (List.suffix_append _ _).isInfix

end TinyNetwork
