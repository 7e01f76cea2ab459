import TinyNetwork.Http.RequestHead

/-!
# Where the parser ends the header section

A `HeaderSection` is a valid request line and header lines with a colon, as bytes; the conditions
are fields.  It is more general than a `RequestHead`: a line is any string without CRLF.

`read_eq_gotAll_iff` says on which inputs a fresh parser reaches `kGotAll`, and what it has
consumed and stored then: the section may be ended by *any* line without a colon.
`endsAtEmptyLine_iff` compares this with the empty line, which alone should end it.
-/

namespace TinyNetwork

open Bytes Search Incremental HttpContext
open HttpRequest (Method Version)

/-! ### Lines -/

/-- A string that its CRLF would end, not an earlier one. -/
def IsLine (line : Bytes) : Prop := ¬ kCRLF <:+: line

theorem isLine_nil : IsLine [] := by
  show ¬ kCRLF <:+: []
  decide

/-- A CR at the end of a line does not complete a CRLF. -/
theorem not_infix_concat {line : Bytes} (h : IsLine line) :
    ¬ kCRLF <:+: line ++ kCRLF.dropLast := by
  rintro ⟨s, t, hst⟩
  rcases t.eq_nil_or_concat' with rfl | ⟨t', c, rfl⟩
  · rw [List.append_nil] at hst
    have hlast := congrArg List.getLast? hst
    rw [List.getLast?_append_of_ne_nil _ (by decide),
      List.getLast?_append_of_ne_nil _ (by decide)] at hlast
    exact absurd hlast (by decide)
  · refine h ⟨s, t', ?_⟩
    rw [← List.append_assoc] at hst
    exact (List.append_inj' hst rfl).1

theorem search_isLine {line : Bytes} (h : IsLine line) (ys : Bytes) :
    search kCRLF (line ++ (kCRLF ++ ys)) = some line.length :=
  search_append_self (not_infix_concat h) ys

/-- The bytes in front of the first CRLF are a line, and the input splits behind it. -/
theorem isLine_of_search {xs : Bytes} {crlf : ℕ} (h : search kCRLF xs = some crlf) :
    IsLine (xs.take crlf) ∧ xs = xs.take crlf ++ (kCRLF ++ xs.drop (crlf + 2)) := by
  have hsplit := eq_of_search h
  rw [List.append_assoc, length_kCRLF] at hsplit
  exact ⟨not_infix_take_of_search h (by decide), hsplit⟩

/-- A line is determined by the bytes from its start on. -/
theorem line_inj {a b ys zs : Bytes} (ha : IsLine a) (hb : IsLine b)
    (h : a ++ (kCRLF ++ ys) = b ++ (kCRLF ++ zs)) : a = b ∧ ys = zs := by
  have hsearch := search_isLine ha ys
  rw [h, search_isLine hb zs, Option.some.injEq] at hsearch
  obtain ⟨rfl, htail⟩ := List.append_inj h hsearch.symm
  exact ⟨rfl, List.append_cancel_left htail⟩

/-- `find` splits in front of the byte it finds. -/
theorem eq_of_find {c x : UInt8} {bs pre post : Bytes} (h : find c bs = (pre, x :: post)) :
    bs = pre ++ c :: post ∧ c ∉ pre := by
  have hsplit := find_fst_append_snd c bs
  rw [h] at hsplit
  rw [find_eq, Prod.mk.injEq] at h
  obtain ⟨hpre, hpost⟩ := h
  have hx : (x != c) = false := by
    have hhead := List.head_dropWhile_not (· != c) (l := bs) (by simp [hpost])
    simpa [hpost] using hhead
  obtain rfl : x = c := by simpa using hx
  refine ⟨hsplit.symm, fun hmem => ?_⟩
  rw [← hpre] at hmem
  simpa using List.mem_takeWhile_imp hmem

theorem find_snd_eq_nil_iff {c : UInt8} {bs : Bytes} : (find c bs).2 = [] ↔ c ∉ bs := by
  constructor
  · intro h hmem
    rw [find_eq, List.dropWhile_eq_nil_iff] at h
    simpa using h c hmem
  · intro h
    rw [find_of_notMem h]

/-! ### Request lines -/

/-- `method SP target SP version`. -/
def ValidRequestLine (line : Bytes) : Prop :=
  ∃ (m : Method) (target : Bytes) (v : Version), m ≠ .kInvalid ∧ v ≠ .kUnknown ∧ 32 ∉ target ∧
    line = m.bytes ++ 32 :: (target ++ 32 :: v.bytes)

theorem bytes_ofBytes {m : Bytes} (h : Method.ofBytes m ≠ .kInvalid) :
    (Method.ofBytes m).bytes = m := by
  unfold Method.ofBytes at h ⊢
  split_ifs at h ⊢ with h1 h2 h3 h4 h5
  · exact h1.symm
  · exact h2.symm
  · exact h3.symm
  · exact h4.symm
  · exact h5.symm
  · exact absurd rfl h

/-- The version string is one of the two the parser knows. -/
theorem version_eq {v : Bytes} (hlen : v.length = 8) (htake : v.take 7 = ascii "HTTP/1.") {c : UInt8}
    (hlast : v.getLast? = some c) : v = ascii "HTTP/1." ++ [c] := by
  obtain ⟨w, rfl⟩ := List.getLast?_eq_some_iff.1 hlast
  have hw : w.length = 7 := by simpa using hlen
  rw [List.take_left' hw] at htake
  rw [htake]

/-- **A request line is accepted** if and only if it is valid. -/
theorem processRequestLine_iff {line : Bytes} :
    (({} : HttpRequest).processRequestLine line).1 = true ↔ ValidRequestLine line := by
  constructor
  · intro h
    unfold HttpRequest.processRequestLine at h
    rcases hm : find 32 line with ⟨m, _ | ⟨sp, rest⟩⟩
    · simp [hm] at h
    rcases ht : find 32 rest with ⟨target, _ | ⟨sp', version⟩⟩
    · simp only [hm, ht, HttpRequest.setMethod] at h
      split at h <;> simp_all
    obtain ⟨rfl, -⟩ := eq_of_find hm
    obtain ⟨rfl, hspace⟩ := eq_of_find ht
    simp only [hm, ht, HttpRequest.setMethod] at h
    split at h
    · cases h
    · rename_i hmethod
      have hvalid : Method.ofBytes m ≠ .kInvalid := by
        simpa using congrArg Prod.fst hmethod
      split_ifs at h with hform h1 h0
      · refine ⟨Method.ofBytes m, target, .kHttp11, hvalid, by decide, hspace, ?_⟩
        rw [bytes_ofBytes hvalid, version_eq hform.1 hform.2 h1]
        rfl
      · refine ⟨Method.ofBytes m, target, .kHttp10, hvalid, by decide, hspace, ?_⟩
        rw [bytes_ofBytes hvalid, version_eq hform.1 hform.2 h0]
        rfl
  · rintro ⟨m, target, v, hm, hv, hspace, rfl⟩
    rw [HttpRequest.processRequestLine_print hm hv hspace]

/-! ### The section and the line that ends it -/

/-- What `addHeader` is given as the field: the bytes in front of the first colon. -/
def headerName (line : Bytes) : Bytes := (find 58 line).1

/-- What `addHeader` is given as the value, before it trims blanks. -/
def headerRest (line : Bytes) : Bytes := (find 58 line).2.tail

/-- Some lines, each with its CRLF. -/
def joinLines (ls : List Bytes) : Bytes := ls.flatMap (· ++ kCRLF)

/-- The header lines are entered into the map of `r` one after the other. -/
def addHeaders (r : HttpRequest) (hs : List Bytes) : HttpRequest :=
  hs.foldl (fun r h => r.addHeader (headerName h) (headerRest h)) r

structure HeaderSection where
  requestLine : Bytes
  headers : List Bytes
  valid : ValidRequestLine requestLine
  requestLine_isLine : IsLine requestLine
  headers_isLine : ∀ h ∈ headers, IsLine h
  colon_mem : ∀ h ∈ headers, 58 ∈ h

namespace HeaderSection

/-- The request line and the header lines, without the line that ends the section. -/
def lines (sec : HeaderSection) : Bytes :=
  sec.requestLine ++ (kCRLF ++ joinLines sec.headers)

/-- The section as it should be: ended by an empty line. -/
def bytes (sec : HeaderSection) : Bytes := sec.lines ++ kCRLF

/-- The request the parser makes of the section. -/
def request (sec : HeaderSection) : HttpRequest :=
  addHeaders (({} : HttpRequest).processRequestLine sec.requestLine).2 sec.headers

end HeaderSection

theorem joinLines_cons (l : Bytes) (ls : List Bytes) :
    joinLines (l :: ls) = l ++ (kCRLF ++ joinLines ls) := by
  simp [joinLines]

/-- The unread bytes behind a line. -/
theorem drop_line (line ys : Bytes) : (line ++ (kCRLF ++ ys)).drop (line.length + 2) = ys := by
  rw [← List.append_assoc, List.drop_left' (by simp [length_kCRLF])]

theorem nextMove_colon (r : HttpRequest) {line : Bytes} (h : IsLine line) (hcolon : 58 ∈ line)
    (ys : Bytes) :
    nextMove ⟨.kExpectHeaders, r⟩ (line ++ (kCRLF ++ ys)) =
      .more ⟨.kExpectHeaders, r.addHeader (headerName line) (headerRest line)⟩ ys := by
  rcases hfind : find 58 line with ⟨name, _ | ⟨c, rest⟩⟩
  · exact absurd hcolon (find_snd_eq_nil_iff.1 (by rw [hfind]))
  · simp only [nextMove, search_isLine h, List.take_left, hfind, drop_line, headerName,
      headerRest, List.tail_cons]

/-- Any line without a colon ends the section. -/
theorem nextMove_noColon (r : HttpRequest) {line : Bytes} (h : IsLine line) (hcolon : 58 ∉ line)
    (ys : Bytes) :
    nextMove ⟨.kExpectHeaders, r⟩ (line ++ (kCRLF ++ ys)) = .stop true ⟨.kGotAll, r⟩ ys := by
  simp only [nextMove, search_isLine h, List.take_left, find_of_notMem hcolon, drop_line]

theorem read_joinLines {hs : List Bytes} {last : Bytes} (r : HttpRequest)
    (hline : ∀ h ∈ hs, IsLine h) (hcolon : ∀ h ∈ hs, 58 ∈ h) (hlast : IsLine last)
    (hend : 58 ∉ last) (rest : Bytes) :
    lineReader.read ⟨.kExpectHeaders, r⟩ (joinLines hs ++ (last ++ (kCRLF ++ rest))) =
      (some true, ⟨.kGotAll, addHeaders r hs⟩, rest) := by
  induction hs generalizing r with
  | nil => exact Reader.read_of_stop (nextMove_noColon r hlast hend rest)
  | cons h hs ih =>
    rw [joinLines_cons, List.append_assoc, List.append_assoc]
    have hmove := nextMove_colon r (hline h List.mem_cons_self) (hcolon h List.mem_cons_self)
      (joinLines hs ++ (last ++ (kCRLF ++ rest)))
    refine (Reader.read_of_more hmove).trans (ih _ ?_ ?_)
    · exact fun g hg => hline g (List.mem_cons_of_mem _ hg)
    · exact fun g hg => hcolon g (List.mem_cons_of_mem _ hg)

/-- A verdict in the headers comes from lines with a colon and one without. -/
theorem exists_lines_of_read {xs rest : Bytes} {r : HttpRequest} {v : Bool} {ctx : HttpContext}
    (h : lineReader.read ⟨.kExpectHeaders, r⟩ xs = (some v, ctx, rest)) :
    ∃ hs last, (∀ h ∈ hs, IsLine h) ∧ (∀ h ∈ hs, 58 ∈ h) ∧ IsLine last ∧ 58 ∉ last ∧
      xs = joinLines hs ++ (last ++ (kCRLF ++ rest)) := by
  induction hn : xs.length using Nat.strong_induction_on generalizing xs r with
  | _ n ih =>
  subst hn
  cases hs : search kCRLF xs with
  | none =>
    rw [Reader.read_of_wait (by simp only [lineReader_next, nextMove, hs])] at h
    cases h
  | some crlf =>
    obtain ⟨hline, hsplit⟩ := isLine_of_search hs
    generalize xs.take crlf = line at hline hsplit
    generalize xs.drop (crlf + 2) = ys at hsplit
    subst hsplit
    by_cases hcolon : 58 ∈ line
    · rw [Reader.read_of_more (nextMove_colon r hline hcolon ys)] at h
      obtain ⟨hs', last, h1, h2, h3, h4, rfl⟩ := ih ys.length
        (by simp only [List.length_append, length_kCRLF]; omega) h rfl
      refine ⟨line :: hs', last, ?_, ?_, h3, h4, ?_⟩
      · simpa using ⟨hline, h1⟩
      · simpa using ⟨hcolon, h2⟩
      · simp only [joinLines_cons, List.append_assoc]
    · rw [Reader.read_of_stop (nextMove_noColon r hline hcolon ys)] at h
      cases h
      exact ⟨[], line, by simp, by simp, hline, hcolon, rfl⟩

/-- The split of the input is unique. -/
theorem joinLines_inj {hs hs' : List Bytes} {last last' rest rest' : Bytes}
    (hline : ∀ h ∈ hs, IsLine h) (hcolon : ∀ h ∈ hs, 58 ∈ h) (hlast : IsLine last)
    (hend : 58 ∉ last) (hline' : ∀ h ∈ hs', IsLine h) (hcolon' : ∀ h ∈ hs', 58 ∈ h)
    (hlast' : IsLine last') (hend' : 58 ∉ last')
    (h : joinLines hs ++ (last ++ (kCRLF ++ rest)) =
      joinLines hs' ++ (last' ++ (kCRLF ++ rest'))) :
    hs = hs' ∧ last = last' ∧ rest = rest' := by
  induction hs generalizing hs' with
  | nil =>
    cases hs' with
    | nil => exact ⟨rfl, line_inj hlast hlast' h⟩
    | cons g' hs' =>
      simp only [joinLines_cons, List.append_assoc] at h
      obtain ⟨rfl, -⟩ := line_inj hlast (hline' g' List.mem_cons_self) h
      exact absurd (hcolon' _ List.mem_cons_self) hend
  | cons g hs ih =>
    cases hs' with
    | nil =>
      simp only [joinLines_cons, List.append_assoc] at h
      obtain ⟨rfl, -⟩ := line_inj (hline g List.mem_cons_self) hlast' h
      exact absurd (hcolon _ List.mem_cons_self) hend'
    | cons g' hs' =>
      simp only [joinLines_cons, List.append_assoc] at h
      obtain ⟨rfl, htail⟩ := line_inj (hline g List.mem_cons_self) (hline' g' List.mem_cons_self) h
      obtain ⟨rfl, hrest⟩ := ih (fun f hf => hline f (List.mem_cons_of_mem _ hf))
        (fun f hf => hcolon f (List.mem_cons_of_mem _ hf))
        (fun f hf => hline' f (List.mem_cons_of_mem _ hf))
        (fun f hf => hcolon' f (List.mem_cons_of_mem _ hf)) htail
      exact ⟨rfl, hrest⟩

/-! ### The parser on any input -/

theorem joinLines_unique {sec sec' : HeaderSection} {last last' rest rest' : Bytes}
    (hlast : IsLine last) (hend : 58 ∉ last) (hlast' : IsLine last') (hend' : 58 ∉ last')
    (h : sec.lines ++ (last ++ (kCRLF ++ rest)) = sec'.lines ++ (last' ++ (kCRLF ++ rest'))) :
    sec = sec' ∧ last = last' ∧ rest = rest' := by
  simp only [HeaderSection.lines, List.append_assoc] at h
  obtain ⟨hrequest, htail⟩ := line_inj sec.requestLine_isLine sec'.requestLine_isLine h
  obtain ⟨hheaders, hrest⟩ := joinLines_inj sec.headers_isLine sec.colon_mem hlast hend
    sec'.headers_isLine sec'.colon_mem hlast' hend' htail
  refine ⟨?_, hrest⟩
  cases sec
  cases sec'
  simp only at hrequest hheaders
  simp only [hrequest, hheaders]

/-- The request line is taken and the header lines are awaited. -/
theorem nextMove_validRequestLine {line : Bytes} (h : IsLine line) (hvalid : ValidRequestLine line)
    (ys : Bytes) :
    nextMove {} (line ++ (kCRLF ++ ys)) =
      .more ⟨.kExpectHeaders, (({} : HttpRequest).processRequestLine line).2⟩ ys := by
  have hok := processRequestLine_iff.2 hvalid
  rcases hp : ({} : HttpRequest).processRequestLine line with ⟨_ | _, request⟩
  · rw [hp] at hok
    cases hok
  · simp only [nextMove, search_isLine h, List.take_left, hp, drop_line]

/-- **When the parser has got all**: after a valid request line and header lines with a colon,
at a line without one.  It leaves what follows that line. -/
theorem read_eq_gotAll_iff {xs rest : Bytes} {ctx : HttpContext} :
    lineReader.read {} xs = (some true, ctx, rest) ↔
      ∃ (sec : HeaderSection) (last : Bytes), IsLine last ∧ 58 ∉ last ∧
        xs = sec.lines ++ (last ++ (kCRLF ++ rest)) ∧ ctx = ⟨.kGotAll, sec.request⟩ := by
  constructor
  · intro h
    cases hs : search kCRLF xs with
    | none =>
      rw [read_fresh_of_search_none hs] at h
      cases h
    | some crlf =>
      obtain ⟨hline, hsplit⟩ := isLine_of_search hs
      generalize xs.take crlf = line at hline hsplit
      generalize xs.drop (crlf + 2) = ys at hsplit
      subst hsplit
      by_cases hvalid : ValidRequestLine line
      · rw [Reader.read_of_more (nextMove_validRequestLine hline hvalid ys)] at h
        obtain ⟨hs', last, h1, h2, h3, h4, rfl⟩ := exists_lines_of_read h
        rw [read_joinLines _ h1 h2 h3 h4] at h
        refine ⟨⟨line, hs', hvalid, hline, h1, h2⟩, last, h3, h4, ?_, ?_⟩
        · simp only [HeaderSection.lines, List.append_assoc]
        · cases h
          rfl
      · -- a bad request line is no verdict `true`
        have hbad : (({} : HttpRequest).processRequestLine line).1 = false := by
          rw [← Bool.not_eq_true, processRequestLine_iff]
          exact hvalid
        obtain ⟨ctx', hread⟩ := read_badRequestLine (search_isLine hline ys) hbad
        rw [hread] at h
        cases h
  · rintro ⟨sec, last, hlast, hend, rfl, rfl⟩
    simp only [HeaderSection.lines, List.append_assoc]
    have hmove := nextMove_validRequestLine sec.requestLine_isLine sec.valid
      (joinLines sec.headers ++ (last ++ (kCRLF ++ rest)))
    rw [Reader.read_of_more hmove,
      read_joinLines _ sec.headers_isLine sec.colon_mem hlast hend]
    rfl

/-- Every header line is in the map, under its name and with its value. -/
def Stored (hs : List Bytes) (headers : HeaderMap) : Prop :=
  ∀ h ∈ hs, headers.lookup (headerName h) = some (HttpRequest.headerValue (headerRest h))

/-- Header lines with the same name have the same value. -/
def Consistent (hs : List Bytes) : Prop :=
  ∀ h ∈ hs, ∀ g ∈ hs, headerName g = headerName h →
    HttpRequest.headerValue (headerRest g) = HttpRequest.headerValue (headerRest h)

/-- The map holds the value of one of the lines with a name, the last one. -/
theorem exists_lookup_addHeaders {hs : List Bytes} {h : Bytes} (hmem : h ∈ hs) (r : HttpRequest) :
    ∃ g ∈ hs, headerName g = headerName h ∧ (addHeaders r hs).headers.lookup (headerName h) =
      some (HttpRequest.headerValue (headerRest g)) := by
  induction hs using List.reverseRecOn with
  | nil => cases hmem
  | append_singleton hs l ih =>
    have hadd : (addHeaders r (hs ++ [l])).headers = (addHeaders r hs).headers.insert
        (headerName l) (HttpRequest.headerValue (headerRest l)) := by
      simp [addHeaders, HttpRequest.addHeader]
    by_cases hname : headerName l = headerName h
    · refine ⟨l, by simp, hname, ?_⟩
      rw [hadd, ← hname, AList.lookup_insert]
    · have hold : h ∈ hs := by
        rcases List.mem_append.1 hmem with hold | hnew
        · exact hold
        · rw [List.mem_singleton.1 hnew] at hname
          exact absurd rfl hname
      obtain ⟨g, hg, hgname, hlookup⟩ := ih hold
      refine ⟨g, List.mem_append_left _ hg, hgname, ?_⟩
      rw [hadd, AList.lookup_insert_ne (Ne.symm hname), hlookup]

/-- **What the map holds**: all lines are in it if and only if no line is replaced by one with
another value. -/
theorem stored_addHeaders_iff (hs : List Bytes) (r : HttpRequest) :
    Stored hs (addHeaders r hs).headers ↔ Consistent hs := by
  constructor
  · intro hstored h hh g hg hname
    have hvalue := hstored g hg
    rw [hname, hstored h hh] at hvalue
    exact (Option.some.inj hvalue).symm
  · intro hcons h hh
    obtain ⟨g, hg, hname, hlookup⟩ := exists_lookup_addHeaders hh r
    rw [hlookup, hcons h hh g hg hname]

namespace HttpContext

/-- The section ends only at an empty line: `parseRequest` on a fresh context reaches `gotAll()` if
and only if the bytes begin with a section ended by an empty line, and then that section has been
consumed and its header lines are in the map. -/
def EndsAtEmptyLine (buf : Buffer) (t : TimeStamp) : Prop :=
  ∃ ok ctx buf', ({} : HttpContext).parseRequest buf t = some (ok, ctx, buf') ∧
    (ctx.gotAll = true ↔ ∃ (sec : HeaderSection) (rest : Bytes),
      buf.readable = sec.bytes ++ rest) ∧
    ∀ (sec : HeaderSection) (rest : Bytes), buf.readable = sec.bytes ++ rest →
      buf'.readable = rest ∧ Stored sec.headers ctx.request.headers

/-- The bytes hold a section that is cut short by a line without a colon that is not empty. -/
def CutShort (bs : Bytes) : Prop :=
  ∃ (sec : HeaderSection) (last rest : Bytes), IsLine last ∧ 58 ∉ last ∧ last ≠ [] ∧
    bs = sec.lines ++ (last ++ (kCRLF ++ rest))

/-- The outcome of `parseRequest` on a fresh context. -/
theorem parseRequest_outcome (buf : Buffer) (t : TimeStamp) :
    ∃ ok ctx buf', ({} : HttpContext).parseRequest buf t = some (ok, ctx, buf') ∧
      (ctx.gotAll = true → ∃ (sec : HeaderSection) (last : Bytes), IsLine last ∧ 58 ∉ last ∧
        buf.readable = sec.lines ++ (last ++ (kCRLF ++ buf'.readable))) ∧
      ∀ (sec : HeaderSection) (last rest : Bytes), IsLine last → 58 ∉ last →
        buf.readable = sec.lines ++ (last ++ (kCRLF ++ rest)) →
        ctx.gotAll = true ∧ buf'.readable = rest ∧
          ctx.request.headers = sec.request.headers := by
  obtain ⟨ok, ctx, buf', hparse, -, hread⟩ := parseRequest_eq_read {} buf t (.inl rfl)
  have hfresh : ({} : HttpContext).untimed = {} := rfl
  rw [hfresh] at hread
  refine ⟨ok, ctx, buf', hparse, fun hgot => ?_, fun sec last rest hlast hend hsplit => ?_⟩
  · have hok : ok = true := by
      by_contra hfalse
      rw [Bool.not_eq_true] at hfalse
      subst hfalse
      have hnot : ctx.untimed.gotAll = false := gotAll_of_read_false hread
      exact absurd (hgot.symm.trans hnot) (by decide)
    have hverdict : verdict ok ctx = some true := by simp [verdict, hok, hgot]
    rw [hverdict, read_eq_gotAll_iff] at hread
    obtain ⟨sec, last, hlast, hend, hsplit, -⟩ := hread
    exact ⟨sec, last, hlast, hend, hsplit⟩
  · rw [read_eq_gotAll_iff.2 ⟨sec, last, hlast, hend, hsplit, rfl⟩, Prod.mk.injEq,
      Prod.mk.injEq] at hread
    obtain ⟨-, hctx, hrest⟩ := hread
    have hstate : ctx.state = .kGotAll := congrArg HttpContext.state hctx.symm
    refine ⟨by simp [gotAll, hstate], hrest.symm, ?_⟩
    exact congrArg (fun c => c.request.headers) hctx.symm

theorem bytes_append (sec : HeaderSection) (rest : Bytes) :
    sec.bytes ++ rest = sec.lines ++ ([] ++ (kCRLF ++ rest)) := by
  simp [HeaderSection.bytes]

/-- The parser takes a line that is not empty for the end. -/
theorem CutShort.not_endsAtEmptyLine {buf : Buffer} {t : TimeStamp} (h : CutShort buf.readable) :
    ¬ EndsAtEmptyLine buf t := by
  rintro ⟨ok₁, ctx₁, buf₁, hparse₁, hiff, -⟩
  obtain ⟨sec, last, rest, hlast, hend, hne, hsplit⟩ := h
  obtain ⟨ok, ctx, buf', hparse, -, hsection⟩ := parseRequest_outcome buf t
  rw [hparse, Option.some.injEq, Prod.mk.injEq, Prod.mk.injEq] at hparse₁
  obtain ⟨rfl, rfl, rfl⟩ := hparse₁
  -- it stops at `last`, so the empty line would have to stand there
  obtain ⟨sec', rest', hsplit'⟩ := hiff.1 (hsection sec last rest hlast hend hsplit).1
  rw [hsplit, bytes_append] at hsplit'
  exact hne (joinLines_unique hlast hend isLine_nil List.not_mem_nil hsplit').2.1

/-- **The header section ends only at an empty line** if and only if no other line without a colon
stands in the place of one; and its lines are all in the map if and only if none of them is
replaced by a later line of the same name. -/
theorem endsAtEmptyLine_iff (buf : Buffer) (t : TimeStamp) :
    EndsAtEmptyLine buf t ↔ ¬ CutShort buf.readable ∧
      ∀ (sec : HeaderSection) (rest : Bytes), buf.readable = sec.bytes ++ rest →
        Consistent sec.headers := by
  obtain ⟨ok, ctx, buf', hparse, hgot, hsection⟩ := parseRequest_outcome buf t
  have hwhole : ∀ (sec : HeaderSection) (rest : Bytes), buf.readable = sec.bytes ++ rest →
      ctx.gotAll = true ∧ buf'.readable = rest ∧
        ctx.request.headers = sec.request.headers := fun sec rest hsplit =>
    hsection sec [] rest isLine_nil List.not_mem_nil (by rw [hsplit, bytes_append])
  constructor
  · intro hends
    refine ⟨fun hcut => hcut.not_endsAtEmptyLine hends, fun sec rest hsplit => ?_⟩
    obtain ⟨ok₁, ctx₁, buf₁, hparse₁, -, hstored⟩ := hends
    rw [hparse, Option.some.injEq, Prod.mk.injEq, Prod.mk.injEq] at hparse₁
    obtain ⟨rfl, rfl, rfl⟩ := hparse₁
    have hmap := (hstored sec rest hsplit).2
    rw [(hwhole sec rest hsplit).2.2] at hmap
    exact (stored_addHeaders_iff _ _).1 hmap
  · rintro ⟨hcut, hcons⟩
    refine ⟨ok, ctx, buf', hparse, ⟨fun h => ?_, ?_⟩, fun sec rest hsplit => ?_⟩
    · obtain ⟨sec, last, hlast, hend, hsplit⟩ := hgot h
      have hempty : last = [] := by
        by_contra hne
        exact hcut ⟨sec, last, _, hlast, hend, hne, hsplit⟩
      refine ⟨sec, buf'.readable, ?_⟩
      rw [hsplit, bytes_append, hempty]
    · rintro ⟨sec, rest, hsplit⟩
      exact (hwhole sec rest hsplit).1
    · obtain ⟨-, hrest, hheaders⟩ := hwhole sec rest hsplit
      refine ⟨hrest, ?_⟩
      rw [hheaders]
      exact (stored_addHeaders_iff _ _).2 (hcons sec rest hsplit)

/-- A request line and a line `foo`, which is no header line: the parser has got all. -/
theorem not_endsAtEmptyLine_foo :
    ¬ EndsAtEmptyLine ((Buffer.new 64).append (ascii "GET / HTTP/1.1\r\nfoo\r\n")) 0 := by
  have hline : IsLine (ascii "GET / HTTP/1.1") := by
    show ¬ kCRLF <:+: ascii "GET / HTTP/1.1"
    decide
  have hfoo : IsLine (ascii "foo") := by
    show ¬ kCRLF <:+: ascii "foo"
    decide
  have hvalid : ValidRequestLine (ascii "GET / HTTP/1.1") :=
    ⟨.kGet, ascii "/", .kHttp11, by decide, by decide, by decide, by decide⟩
  refine CutShort.not_endsAtEmptyLine
    ⟨⟨ascii "GET / HTTP/1.1", [], hvalid, hline, by simp, by simp⟩, ascii "foo", [], hfoo, ?_⟩
  rw [Buffer.readable_append, Buffer.readable_new]
  exact ⟨by decide, by decide, by simp only [HeaderSection.lines]; decide⟩

end HttpContext

end TinyNetwork
