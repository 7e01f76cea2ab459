import TinyNetwork.Http.HeaderSection

/-!
# Which request lines are accepted

`requestLine_exact` says so in terms of the bytes of the line alone: the names and the digits that
the code compares with are those of `methodNames` and `versionDigits`.
-/

namespace TinyNetwork

open Bytes
open HttpRequest (Method Version)

/-- The names that `setMethod` knows. -/
def methodNames : List (Bytes × Method) :=
  [(ascii "GET", .kGet), (ascii "POST", .kPost), (ascii "HEAD", .kHead), (ascii "PUT", .kPut),
    (ascii "DELETE", .kDelete)]

/-- The last bytes of the versions. -/
def versionDigits : List (UInt8 × Version) := [(48, .kHttp10), (49, .kHttp11)]

/-- The line is made of a method name, a target without a space and a version. -/
structure LineOf (m : Bytes × Method) (t : Bytes) (d : UInt8 × Version) (line : Bytes) : Prop where
  method_mem : m ∈ methodNames
  version_mem : d ∈ versionDigits
  space_notMem : 32 ∉ t
  eq : line = m.1 ++ ascii " " ++ t ++ ascii " HTTP/1." ++ [d.1]

theorem mem_methodNames {m : Bytes × Method} :
    m ∈ methodNames ↔ m.2 ≠ .kInvalid ∧ m.1 = m.2.bytes := by
  constructor
  · intro h
    simp only [methodNames, List.mem_cons, List.not_mem_nil, or_false] at h
    rcases h with rfl | rfl | rfl | rfl | rfl <;> exact ⟨by decide, rfl⟩
  · obtain ⟨name, method⟩ := m
    rintro ⟨hne, hname⟩
    obtain rfl : name = method.bytes := hname
    cases method with
    | kInvalid => exact absurd rfl hne
    | kGet | kPost | kHead | kPut | kDelete => decide

theorem bytes_of_mem_versionDigits {d : UInt8 × Version} (h : d ∈ versionDigits) :
    d.2 ≠ .kUnknown ∧ d.2.bytes = ascii "HTTP/1." ++ [d.1] := by
  rcases List.mem_pair.1 h with rfl | rfl <;> exact ⟨by decide, by decide⟩

theorem exists_mem_versionDigits {v : Version} (h : v ≠ .kUnknown) :
    ∃ d, (d, v) ∈ versionDigits := by
  cases v with
  | kUnknown => exact absurd rfl h
  | kHttp10 => exact ⟨48, by decide⟩
  | kHttp11 => exact ⟨49, by decide⟩

/-- The line in the form in which the parser is known to take it. -/
theorem LineOf.eq_bytes {m : Bytes × Method} {t : Bytes} {d : UInt8 × Version} {line : Bytes}
    (h : LineOf m t d line) : line = m.2.bytes ++ 32 :: (t ++ 32 :: d.2.bytes) := by
  have hspace : ascii " HTTP/1." = 32 :: ascii "HTTP/1." := by decide
  rw [h.eq, (mem_methodNames.1 h.method_mem).2, (bytes_of_mem_versionDigits h.version_mem).2,
    hspace]
  simp [ascii, ofChar]

theorem validRequestLine_iff {line : Bytes} :
    ValidRequestLine line ↔ ∃ m t d, LineOf m t d line := by
  constructor
  · rintro ⟨m, t, v, hm, hv, hspace, rfl⟩
    obtain ⟨d, hd⟩ := exists_mem_versionDigits hv
    refine ⟨(m.bytes, m), t, (d, v), mem_methodNames.2 ⟨hm, rfl⟩, hd, hspace, ?_⟩
    rw [(bytes_of_mem_versionDigits hd).2]
    simp [ascii, ofChar]
  · rintro ⟨m, t, d, h⟩
    exact ⟨m.2, t, d.2, (mem_methodNames.1 h.method_mem).1,
      (bytes_of_mem_versionDigits h.version_mem).1, h.space_notMem, h.eq_bytes⟩

/-- **Which request lines are accepted.**  A fresh context accepts a line if and only if it is a
method name, a target without a space and a version, with a space between them; and then these are
the method and the version of the request, and the target is divided into path and query in front
of its first question mark. -/
theorem requestLine_exact (line : Bytes) :
    ((({} : HttpContext).request.processRequestLine line).1 = true ↔
      ∃ m t d, LineOf m t d line) ∧
    ∀ m t d, LineOf m t d line →
      (({} : HttpContext).request.processRequestLine line).2.method = m.2 ∧
      (({} : HttpContext).request.processRequestLine line).2.version = d.2 ∧
      (({} : HttpContext).request.processRequestLine line).2.path = t.takeWhile (· != 63) ∧
      (({} : HttpContext).request.processRequestLine line).2.query = t.dropWhile (· != 63) ∧
      (({} : HttpContext).request.processRequestLine line).2.path ++
        (({} : HttpContext).request.processRequestLine line).2.query = t := by
  refine ⟨processRequestLine_iff.trans validRequestLine_iff, fun m t d h => ?_⟩
  have hprint := HttpRequest.processRequestLine_print (mem_methodNames.1 h.method_mem).1
    (bytes_of_mem_versionDigits h.version_mem).1 h.space_notMem
  rw [← h.eq_bytes, find_eq] at hprint
  have hrequest : ({} : HttpContext).request = {} := rfl
  rw [hrequest, hprint]
  exact ⟨rfl, rfl, rfl, rfl, List.takeWhile_append_dropWhile⟩

/-- Only the first question mark counts. -/
theorem requestLine_exact_put :
    (({} : HttpContext).request.processRequestLine (ascii "PUT /a?b?c HTTP/1.0")).1 = true ∧
      (({} : HttpContext).request.processRequestLine (ascii "PUT /a?b?c HTTP/1.0")).2.path =
        ascii "/a" ∧
      (({} : HttpContext).request.processRequestLine (ascii "PUT /a?b?c HTTP/1.0")).2.query =
        ascii "?b?c" := by
  have hline : LineOf (ascii "PUT", .kPut) (ascii "/a?b?c") (48, .kHttp10)
      (ascii "PUT /a?b?c HTTP/1.0") := ⟨by decide, by decide, by decide, by decide⟩
  obtain ⟨hiff, hfields⟩ := requestLine_exact (ascii "PUT /a?b?c HTTP/1.0")
  obtain ⟨-, -, hpath, hquery, -⟩ := hfields _ _ _ hline
  exact ⟨hiff.2 ⟨_, _, _, hline⟩, hpath.trans (by decide), hquery.trans (by decide)⟩

end TinyNetwork
