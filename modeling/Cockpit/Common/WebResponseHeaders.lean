import Cockpit.Common.WebResponse

namespace Cockpit

open Lib List

/-!
# The header block of a response as a list of fields
-/

namespace WebResponse

/-! ### The header block as fields -/

/-- The field of a header that `append_header` writes. -/
def headerField : CStr × Option CStr → Option Field
  | (_, none) => none
  | (name, some value) =>
    if isSimpleToken name && isHeaderValue value then some ⟨name.bytes, value.bytes⟩ else none

variable (self : WebResponse)

/-- The `Content-Type` that `finish_headers` adds. -/
def typeFields (status : Int) (seen : List SeenHeader) : List Field :=
  if !seen.contains .contentType && (200 ≤ status && status ≤ 299) then
    ((self.fullPath.bind contentType).map fun type => ⟨ascii "Content-Type", ascii type⟩).toList
  else []

/-- The fields that tell the end of the body. -/
def framingFields (length status : Int) (seen : List SeenHeader) :
    List Field :=
  if status ≠ 304 then
    (if 0 ≤ length && self.filters.isEmpty then
      [⟨ascii "Content-Length", printInt length⟩] else []) ++
    (if self.choosesChunked length seen then
      [⟨ascii "Transfer-Encoding", ascii "chunked"⟩] else [])
  else []

/-- The `Cache-Control` of a cache type. -/
def cacheFields : CacheType → List Field
  | .forever => [⟨ascii "Cache-Control", ascii "max-age=31556926, public"⟩]
  | .noCache => [⟨ascii "Cache-Control", ascii "no-cache, no-store"⟩]
  | .private_ => [⟨ascii "Cache-Control", ascii "max-age=86400, private"⟩]
  | .unset => []

/-- The fields for caches, for the connection and for security. -/
def blanketFields (status : Int) (seen : List SeenHeader) : List Field :=
  (if !seen.contains .cacheControl && (200 ≤ status && status ≤ 299) then
    cacheFields self.cacheType else []) ++
  (if !seen.contains .vary && (200 ≤ status && status ≤ 299) && self.cacheType = .private_ then
    [⟨ascii "Vary", ascii "Cookie"⟩] else []) ++
  (if self.keepAlive then [] else [⟨ascii "Connection", ascii "close"⟩]) ++
  (if seen.contains .dnsPrefetchControl then []
    else [⟨ascii "X-DNS-Prefetch-Control", ascii "off"⟩]) ++
  (if seen.contains .referrerPolicy then []
    else [⟨ascii "Referrer-Policy", ascii "no-referrer"⟩])

theorem appendHeaders_text (headers : List (CStr × Option CStr)) :
    (appendHeaders headers).1 = (headers.filterMap headerField).flatMap fieldLine := by
  induction headers with
  | nil => rfl
  | cons header headers ih =>
    obtain ⟨name, value⟩ := header
    rw [appendHeaders, ih]
    cases value with
    | none => rfl
    | some value =>
      by_cases h : (isSimpleToken name && isHeaderValue value)
      · simp [appendHeader, headerField, h, fieldLine]
      · simp [appendHeader, headerField, h]

theorem typeFields_text (status : Int) (seen : List SeenHeader) :
    (self.typeFields status seen).flatMap fieldLine =
      if !seen.contains .contentType && (200 ≤ status && status ≤ 299) then
        (self.fullPath.bind contentType).elim [] fun type =>
          ascii "Content-Type: " ++ ascii type ++ crlf
      else [] := by
  have hname : ascii "Content-Type: " = ascii "Content-Type" ++ ascii ": " := by decide
  unfold typeFields
  split
  · cases self.fullPath.bind contentType <;> simp [fieldLine, hname]
  · rfl

theorem cacheFields_text (type : CacheType) : (cacheFields type).flatMap fieldLine =
    match type with
    | .forever => ascii "Cache-Control: max-age=31556926, public\r\n"
    | .noCache => ascii "Cache-Control: no-cache, no-store\r\n"
    | .private_ => ascii "Cache-Control: max-age=86400, private\r\n"
    | .unset => [] := by
  cases type <;> decide

/-- The text that `finish_headers` appends consists of header fields. -/
theorem finishHeaders_text (string : Bytes) (length status : Int)
    (seen : List SeenHeader) :
    (self.finishHeaders string length status seen).1 =
      string ++ ((self.typeFields status seen ++ (self.framingFields length status seen ++
        self.blanketFields status seen)).flatMap fieldLine ++ crlf) := by
  have hframing : (self.framingFields length status seen).flatMap fieldLine =
      if status ≠ 304 then
        (if 0 ≤ length && self.filters.isEmpty then
          ascii "Content-Length: " ++ printInt length ++ crlf else []) ++
        (if self.choosesChunked length seen then ascii "Transfer-Encoding: chunked\r\n" else [])
      else [] := by
    have hname : ascii "Content-Length: " = ascii "Content-Length" ++ ascii ": " := by decide
    have hcode : ascii "Transfer-Encoding: chunked\r\n" =
      fieldLine ⟨ascii "Transfer-Encoding", ascii "chunked"⟩ := by decide
    unfold framingFields
    split
    · rw [flatMap_append, hcode]
      congr 1
      · split <;> simp [fieldLine, hname]
      · split <;> simp
    · rfl
  have hvary : [Lib.Field.mk (ascii "Vary") (ascii "Cookie")].flatMap fieldLine =
      ascii "Vary: Cookie\r\n" := by decide
  have hclose : [Lib.Field.mk (ascii "Connection") (ascii "close")].flatMap fieldLine =
      ascii "Connection: close\r\n" := by decide
  have hdns : [Lib.Field.mk (ascii "X-DNS-Prefetch-Control") (ascii "off")].flatMap fieldLine =
      ascii "X-DNS-Prefetch-Control: off\r\n" := by decide
  have hreferrer : [Lib.Field.mk (ascii "Referrer-Policy") (ascii "no-referrer")].flatMap fieldLine =
      ascii "Referrer-Policy: no-referrer\r\n" := by decide
  rw [flatMap_append, flatMap_append, typeFields_text, hframing, blanketFields]
  simp only [flatMap_append, apply_ite (List.flatMap fieldLine), cacheFields_text, hvary, hclose,
    hdns, hreferrer, flatMap_nil, finishHeaders, append_assoc]
  cases self.fullPath.bind contentType <;> rfl

/-! ### Every field can be written on one line -/

theorem oneLine_printInt (n : Int) : OneLine (printInt n) := by
  unfold printInt
  split
  · exact OneLine.append (by decide : OneLine [45]) (oneLine_decimal n.natAbs)
  · exact oneLine_decimal n.natAbs

/-- `cockpit_web_response_is_header_value` keeps a value on one line. -/
theorem oneLine_of_isHeaderValue {value : CStr} (h : isHeaderValue value) :
    OneLine value.bytes := by
  rw [isHeaderValue, all_eq_true] at h
  constructor <;> exact fun hmem => nomatch (h _ hmem)

theorem typeFields_ok (status : Int) (seen : List SeenHeader) :
    ∀ f ∈ self.typeFields status seen, f.Ok := by
  intro f hf
  unfold typeFields at hf
  split at hf
  · rw [Option.mem_toList, Option.map_eq_some_iff] at hf
    obtain ⟨type, htype, rfl⟩ := hf
    obtain ⟨path, -, htype⟩ := Option.bind_eq_some_iff.mp htype
    obtain ⟨entry, hentry, rfl⟩ := Option.map_eq_some_iff.mp htype
    have htable : ∀ entry ∈ contentTypes, OneLine (ascii entry.2) := by decide
    exact ⟨(by decide : isToken (ascii "Content-Type")), htable entry (mem_of_find?_eq_some hentry)⟩
  · exact nomatch hf

theorem framingFields_ok (length status : Int) (seen : List SeenHeader) :
    ∀ f ∈ self.framingFields length status seen, f.Ok := by
  intro f hf
  unfold framingFields at hf
  split at hf
  · rcases mem_append.mp hf with hf | hf
    · split at hf
      · rw [mem_singleton.mp hf]
        exact ⟨(by decide : isToken (ascii "Content-Length")), oneLine_printInt length⟩
      · exact nomatch hf
    split at hf
    · rw [mem_singleton.mp hf]
      decide
    · exact nomatch hf
  · exact nomatch hf

/-- The fields that may stand in a header block beside those of the caller. -/
def fixedFields : List Field :=
  [⟨ascii "Cache-Control", ascii "max-age=31556926, public"⟩,
    ⟨ascii "Cache-Control", ascii "no-cache, no-store"⟩,
    ⟨ascii "Cache-Control", ascii "max-age=86400, private"⟩,
    ⟨ascii "Vary", ascii "Cookie"⟩,
    ⟨ascii "Connection", ascii "close"⟩,
    ⟨ascii "X-DNS-Prefetch-Control", ascii "off"⟩,
    ⟨ascii "Referrer-Policy", ascii "no-referrer"⟩]

theorem blanketFields_subset (status : Int) (seen : List SeenHeader) :
    ∀ f ∈ self.blanketFields status seen, f ∈ fixedFields := by
  have hsub {c : Prop} [Decidable c] {xs ys : List Field} (hx : ∀ f ∈ xs, f ∈ fixedFields)
      (hy : ∀ f ∈ ys, f ∈ fixedFields) : ∀ f ∈ if c then xs else ys, f ∈ fixedFields := by
    split <;> assumption
  have hcache (type : CacheType) : ∀ f ∈ cacheFields type, f ∈ fixedFields := by
    cases type <;> decide
  intro f hf
  simp only [blanketFields, mem_append] at hf
  rcases hf with (((hf | hf) | hf) | hf) | hf
  · exact hsub (hcache self.cacheType) (by simp) f hf
  · exact hsub (by decide) (by decide) f hf
  · exact hsub (by decide) (by decide) f hf
  · exact hsub (by decide) (by decide) f hf
  · exact hsub (by decide) (by decide) f hf

theorem blanketFields_ok (status : Int) (seen : List SeenHeader) :
    ∀ f ∈ self.blanketFields status seen, f.Ok := by
  have hfixed : ∀ f ∈ fixedFields, f.Ok := by decide
  exact fun f hf => hfixed f (self.blanketFields_subset status seen f hf)

/-! ### What tells the end of the body -/

theorem valuesOf_append (name : Bytes) (fs gs : List Field) :
    valuesOf name (fs ++ gs) = valuesOf name fs ++ valuesOf name gs := by
  simp [valuesOf]

/-- Neither the type nor the blanket fields tell the end of the body. -/
theorem valuesOf_finishFields (length status : Int)
    (seen : List SeenHeader) {name : Bytes}
    (htype : sameName name (ascii "Content-Type") = false)
    (hfixed : ∀ f ∈ fixedFields, sameName name f.name = false) :
    valuesOf name (self.typeFields status seen ++ (self.framingFields length status seen ++
        self.blanketFields status seen)) =
      valuesOf name (self.framingFields length status seen) := by
  have h1 : valuesOf name (self.typeFields status seen) = [] := by
    apply valuesOf_eq_nil
    intro f hf
    unfold typeFields at hf
    split at hf
    · rw [Option.mem_toList, Option.map_eq_some_iff] at hf
      obtain ⟨type, -, rfl⟩ := hf
      exact htype
    · exact nomatch hf
  have h2 : valuesOf name (self.blanketFields status seen) = [] :=
    valuesOf_eq_nil fun f hf => hfixed f (self.blanketFields_subset status seen f hf)
  rw [valuesOf_append, valuesOf_append, h1, h2, nil_append, append_nil]

end WebResponse

end Cockpit
