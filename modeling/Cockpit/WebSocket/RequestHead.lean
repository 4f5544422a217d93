import Cockpit.Common.GLib
import Cockpit.Lib.HttpMessage
import Cockpit.Lib.Incremental

namespace Cockpit

open Lib List

/-!
# `src/websocket/websocket.c`: the request line and the headers of an HTTP request

The parsers look at the front of a buffer.  Where the source returns zero they ask for more
bytes, and where it returns a negative number they fail.

* `parseReqLine_item`, `parseHeaders_item` — what is parsed is told by its own bytes;
* `parseReqLine_fail`, `parseHeaders_fail` — a failure stays one when more bytes arrive.
-/

/-- `g_strndup` of some bytes: up to the first NUL. -/
def strndup (bytes : Bytes) : CStr :=
  ⟨bytes.takeWhile (· ≠ 0), fun h => by simpa using mem_takeWhile_imp h⟩

/-- `g_ascii_isspace` -/
def isSpace (b : UInt8) : Bool := b = 32 || b = 9 || b = 10 || b = 12 || b = 13

/-- `g_strstrip` -/
def strstrip (s : CStr) : CStr :=
  ⟨((s.bytes.dropWhile isSpace).reverse.dropWhile isSpace).reverse, fun h => s.noNul
    ((dropWhile_sublist _).subset (mem_reverse.mp
      ((dropWhile_sublist _).subset (mem_reverse.mp h))))⟩

/-- A header table: names compare up to the case of ASCII letters. -/
abbrev Headers := List (CStr × CStr)

/-- `g_hash_table_lookup` on headers -/
def lookupHeader (headers : Headers) (name : String) : Option CStr :=
  (headers.find? fun header => sameName (ascii name) header.1.bytes).map Prod.snd

/-- `g_hash_table_insert` on headers: a name that is there keeps its spelling -/
def insertHeader (headers : Headers) (name value : CStr) : Headers :=
  match headers with
  | [] => [(name, value)]
  | (other, old) :: headers =>
    if sameName name.bytes other.bytes then (other, value) :: headers
    else (other, old) :: insertHeader headers name value

/-- Cut at the first `'\n'`, which is left out (`memchr`). -/
def splitLine : Bytes → Option (Bytes × Bytes)
  | [] => none
  | b :: data =>
    if b = 10 then some ([], data) else (splitLine data).map fun p => (b :: p.1, p.2)

/-- The part of `web_socket_util_parse_req_line` behind the search for the end of the line: the
    method and the resource -/
def parseLine (line : Bytes) : Option (CStr × CStr) :=
  if line.head? = some 32 then none
  else
    let method := line.takeWhile (· ≠ 32)
    match line.dropWhile (· ≠ 32) with
    | [] => none
    | _ :: rest =>
      let path := (rest.dropWhile (· = 32)).takeWhile (· ≠ 32)
      match (rest.dropWhile (· = 32)).dropWhile (· ≠ 32) with
      | [] => none
      | _ :: rest =>
        let version := rest.dropWhile (· = 32)
        if version.take 8 ≠ ascii "HTTP/1.0" ∧ version.take 8 ≠ ascii "HTTP/1.1" then none
        -- `strchr` finds a NUL as well, at the end of the string that it searches
        else if (version.drop 8).all fun b => b = 13 || b = 32 || b = 0 then
          some (strndup method, strndup path)
        else none

/-- `web_socket_util_parse_req_line` -/
def parseReqLine (data : Bytes) : Scan (CStr × CStr) :=
  match splitLine data with
  | none => .more
  | some (line, _) =>
    match parseLine line with
    | none => .fail
    | some request => .item (line.length + 1) request

/-- A header line. -/
def parseHeader (line : Bytes) : Option (CStr × CStr) :=
  match line.dropWhile (· ≠ 58) with
  | [] => none
  | _ :: value =>
    some (strstrip (strndup (line.takeWhile (· ≠ 58))), strstrip (strndup (value ++ [10])))

variable {data line rest : Bytes}

/-- What `splitLine` cuts. -/
theorem splitLine_eq_some :
    splitLine data = some (line, rest) ↔ data = line ++ 10 :: rest ∧ 10 ∉ line := by
  induction data generalizing line with
  | nil => simp [splitLine]
  | cons b data ih =>
    rw [splitLine]
    split
    · rename_i hb
      subst hb
      constructor
      · intro h
        obtain ⟨rfl, rfl⟩ := Prod.mk.inj (Option.some.inj h)
        simp
      rintro ⟨h, hnot⟩
      cases line with
      | nil => simpa using h
      | cons c line =>
        rw [cons_append, List.cons.injEq] at h
        exact absurd (h.1 ▸ mem_cons_self) hnot
    rename_i hb
    constructor
    · intro h
      obtain ⟨⟨tail, rest'⟩, htail, heq⟩ := Option.map_eq_some_iff.mp h
      obtain ⟨rfl, rfl⟩ := Prod.mk.inj heq
      obtain ⟨rfl, hnot⟩ := ih.mp htail
      exact ⟨rfl, by simp [hnot, Ne.symm hb]⟩
    rintro ⟨h, hnot⟩
    cases line with
    | nil => exact absurd (List.cons.inj h).1 hb
    | cons c line =>
      rw [cons_append, List.cons.injEq] at h
      obtain ⟨rfl, rfl⟩ := h
      rw [ih.mpr ⟨rfl, fun hmem => hnot (mem_cons_of_mem _ hmem)⟩]
      rfl

theorem length_lt_of_splitLine (h : splitLine data = some (line, rest)) :
    rest.length < data.length := by
  rw [(splitLine_eq_some.mp h).1, List.length_append, length_cons]
  omega

/-- `web_socket_util_parse_headers`, from the headers that were parsed before -/
def parseHeadersFrom (headers : Headers) (data : Bytes) : Scan Headers :=
  match _h : splitLine data with
  | none => .more
  | some (line, rest) =>
    if line = [] ∨ line = [13] then .item (line.length + 1) headers
    else
      match parseHeader line with
      | none => .fail
      | some (name, value) =>
        match parseHeadersFrom (insertHeader headers name value) rest with
        | .more => .more
        | .fail => .fail
        | .item n parsed => .item (line.length + 1 + n) parsed
  termination_by data.length
  decreasing_by exact length_lt_of_splitLine _h

/-- `web_socket_util_parse_headers` -/
def parseHeaders (data : Bytes) : Scan Headers := parseHeadersFrom [] data

/-! ### What was parsed does not depend on what follows -/

variable {n : Nat}

/-- A request line is told by its own bytes. -/
theorem parseReqLine_item {request : CStr × CStr} (h : parseReqLine data = .item n request) :
    ∃ head rest, data = head ++ rest ∧ head.length = n ∧ 0 < n ∧
      ∀ rest', parseReqLine (head ++ rest') = .item n request := by
  unfold parseReqLine at h
  split at h
  · exact nomatch h
  rename_i line rest hline
  obtain ⟨rfl, hnot⟩ := splitLine_eq_some.mp hline
  split at h
  · exact nomatch h
  rename_i parsed hparse
  obtain ⟨rfl, rfl⟩ := Scan.item.inj h
  refine ⟨line ++ [10], rest, by simp, by simp, by omega, fun rest' => ?_⟩
  have hsplit : splitLine (line ++ [10] ++ rest') = some (line, rest') :=
    splitLine_eq_some.mpr ⟨by simp, hnot⟩
  simp only [parseReqLine, hsplit, hparse]

/-- A request line that is refused stays refused. -/
theorem parseReqLine_fail (h : parseReqLine data = .fail) (rest' : Bytes) :
    parseReqLine (data ++ rest') = .fail := by
  unfold parseReqLine at h
  split at h
  · exact nomatch h
  rename_i line rest hline
  obtain ⟨rfl, hnot⟩ := splitLine_eq_some.mp hline
  split at h
  · rename_i hparse
    have hsplit : splitLine (line ++ 10 :: rest ++ rest') = some (line, rest ++ rest') :=
      splitLine_eq_some.mpr ⟨by simp, hnot⟩
    simp only [parseReqLine, hsplit, hparse]
  · exact nomatch h

/-- One line of `web_socket_util_parse_headers`. -/
theorem parseHeadersFrom_line (hnot : 10 ∉ line) (headers : Headers) :
    parseHeadersFrom headers (line ++ 10 :: rest) =
      if line = [] ∨ line = [13] then .item (line.length + 1) headers
      else
        match parseHeader line with
        | none => .fail
        | some (name, value) =>
          match parseHeadersFrom (insertHeader headers name value) rest with
          | .more => .more
          | .fail => .fail
          | .item n parsed => .item (line.length + 1 + n) parsed := by
  have hsplit : splitLine (line ++ 10 :: rest) = some (line, rest) :=
    splitLine_eq_some.mpr ⟨rfl, hnot⟩
  rw [parseHeadersFrom]
  split
  · rename_i hnone
    rw [hsplit] at hnone
    exact nomatch hnone
  rename_i line' rest' hsome
  rw [hsplit] at hsome
  obtain ⟨rfl, rfl⟩ := Prod.mk.inj (Option.some.inj hsome)
  rfl

/-- A buffer without a line is not enough. -/
theorem parseHeadersFrom_none (h : splitLine data = none) (headers : Headers) :
    parseHeadersFrom headers data = .more := by
  rw [parseHeadersFrom]
  split
  · rfl
  · rename_i hsome
    rw [h] at hsome
    exact nomatch hsome

/-- The rule of induction over the lines of a buffer. -/
theorem lines_induction {motive : Bytes → Prop} (none : ∀ data, splitLine data = none → motive data)
    (line : ∀ line rest, 10 ∉ line → motive rest → motive (line ++ 10 :: rest)) (data : Bytes) :
    motive data := by
  induction hlen : data.length using Nat.strongRecOn generalizing data with
  | _ n ih =>
    cases hsplit : splitLine data with
    | none => exact none data hsplit
    | some p =>
      obtain ⟨head, rest⟩ := p
      have hlt := length_lt_of_splitLine hsplit
      obtain ⟨rfl, hnot⟩ := splitLine_eq_some.mp hsplit
      exact line head rest hnot (ih _ (by omega) rest rfl)

variable {headers : Headers}

/-- A header block is told by its own bytes. -/
theorem parseHeadersFrom_item {parsed : Headers}
    (h : parseHeadersFrom headers data = .item n parsed) :
    ∃ head rest, data = head ++ rest ∧ head.length = n ∧ 0 < n ∧
      ∀ rest', parseHeadersFrom headers (head ++ rest') = .item n parsed := by
  induction data using lines_induction generalizing headers n with
  | none data hsplit =>
    rw [parseHeadersFrom_none hsplit] at h
    exact nomatch h
  | line line rest hnot ih =>
    rw [parseHeadersFrom_line hnot] at h
    split at h
    · rename_i hempty
      obtain ⟨rfl, rfl⟩ := Scan.item.inj h
      refine ⟨line ++ [10], rest, by simp, by simp, by omega, fun rest' => ?_⟩
      rw [append_assoc, singleton_append, parseHeadersFrom_line hnot, if_pos hempty]
    rename_i hline
    split at h
    · exact nomatch h
    rename_i name value hhead
    split at h
    · exact nomatch h
    · exact nomatch h
    rename_i m parsed' hrest
    obtain ⟨rfl, rfl⟩ := Scan.item.inj h
    obtain ⟨head, others, rfl, rfl, -, hstable⟩ := ih hrest
    refine ⟨line ++ 10 :: head, others, by simp, by simp; omega, by omega, fun rest' => ?_⟩
    rw [append_assoc, cons_append, parseHeadersFrom_line hnot, if_neg hline]
    simp only [hhead, hstable]

/-- A header block that is refused stays refused. -/
theorem parseHeadersFrom_fail (h : parseHeadersFrom headers data = .fail) (rest' : Bytes) :
    parseHeadersFrom headers (data ++ rest') = .fail := by
  induction data using lines_induction generalizing headers with
  | none data hsplit =>
    rw [parseHeadersFrom_none hsplit] at h
    exact nomatch h
  | line line rest hnot ih =>
    rw [parseHeadersFrom_line hnot] at h
    rw [append_assoc, cons_append, parseHeadersFrom_line hnot]
    split at h
    · exact nomatch h
    rename_i hline
    rw [if_neg hline]
    split at h
    · rename_i hhead
      rfl
    rename_i name value hhead
    split at h
    · exact nomatch h
    · rename_i hrest
      simp only [ih hrest]
    · exact nomatch h

end Cockpit
