import Cockpit.Lib.HttpMessage

namespace Cockpit.Lib

/-!
# Reading one HTTP/1.1 request off a byte stream

The reader follows RFC 7230: a request line of a token, a target and the version, header fields up
to an empty line, and a body whose end is told as that of a response, where a request without a
length has none.  What follows the request is handed back.

* `readRequest_head` — a request is read as far as its body;
* `readRequest_tokens` — the names in what is read are tokens.
-/

/-- A request. -/
structure Request where
  method : List UInt8
  target : List UInt8
  fields : List Field
  body : List UInt8
  deriving DecidableEq

/-- The method and the target in a line such as `GET / HTTP/1.1`. -/
def readRequestLine (line : List UInt8) : Option (List UInt8 × List UInt8) :=
  match line.splitOn 32 with
  | [method, target, version] =>
    if isToken method ∧ target ≠ [] ∧ version = ascii "HTTP/1.1" then some (method, target) else none
  | _ => none

/-- What tells the end of the body of a request. -/
def requestEnd (fields : List Field) : Option BodyEnd :=
  (bodyEnd 200 fields).map fun ends => if ends = .untilClose then .absent else ends

/-- Read a request, and hand back what is behind it. -/
def readRequest (bs : List UInt8) : Option (Request × List UInt8) :=
  match takeLine bs with
  | none => none
  | some (line, rest) =>
    match readRequestLine line, readFields (rest.length + 1) rest with
    | some (method, target), some (fields, rest) =>
      match requestEnd fields with
      | none => none
      | some ends => (readBody ends rest).map fun p => (⟨method, target, fields, p.1⟩, p.2)
    | _, _ => none

variable {method target bs rest : List UInt8} {fs : List Field}

/-- **A request that was written is read as far as its body.** -/
theorem readRequest_head {line : List UInt8} (hline : OneLine line)
    (hread : readRequestLine line = some (method, target)) (hfs : ∀ f ∈ fs, f.Ok)
    (rest : List UInt8) :
    readRequest (line ++ (crlf ++ (fs.flatMap fieldLine ++ (crlf ++ rest)))) =
      (requestEnd (fs.map Field.trimmed)).bind fun ends => (readBody ends rest).map fun p =>
          (⟨method, target, fs.map Field.trimmed, p.1⟩, p.2) := by
  have hfuel : fs.length < (fs.flatMap fieldLine ++ (crlf ++ rest)).length + 1 := by
    have := length_le_flatMap_fieldLine fs
    rw [List.length_append]
    omega
  rw [readRequest, takeLine_line hline]
  simp only [hread, readFields_fieldLines hfs rest hfuel]
  cases requestEnd (fs.map Field.trimmed) <;> rfl

/-- A request line is read when the method is a token and there is a target. -/
theorem readRequestLine_eq_some_iff (hmeth : 32 ∉ method)
    (htarget : 32 ∉ target) (p : List UInt8 × List UInt8) :
    readRequestLine (method ++ 32 :: (target ++ 32 :: ascii "HTTP/1.1")) = some p ↔
      (isToken method ∧ target ≠ []) ∧ p = (method, target) := by
  have hvers : 32 ∉ ascii "HTTP/1.1" := by decide
  have hsplit : (method ++ 32 :: (target ++ 32 :: ascii "HTTP/1.1")).splitOn 32 =
      [method, target, ascii "HTTP/1.1"] := by
    rw [List.splitOn_append_cons_self_of_not_mem hmeth,
      List.splitOn_append_cons_self_of_not_mem htarget, List.splitOn_eq_singleton hvers]
  rw [readRequestLine, hsplit]
  simp only [and_true]
  split
  · rename_i h
    simp [h, eq_comm]
  · rename_i h
    simp [h]

theorem readFields_tokens {fuel : Nat}
    (h : readFields fuel bs = some (fs, rest)) : ∀ f ∈ fs, isToken f.name := by
  induction fuel generalizing bs fs with
  | zero => cases h
  | succ fuel ih =>
    rw [readFields] at h
    split at h
    · cases h
    · cases h
      exact List.forall_mem_nil _
    split at h
    · cases h
    rename_i field hfield
    obtain ⟨⟨fs', rest'⟩, hrest, heq⟩ := Option.map_eq_some_iff.mp h
    cases heq
    intro f hf
    rcases List.mem_cons.mp hf with rfl | hf
    · -- a field is read only when its name is a token
      unfold readField at hfield
      dsimp only at hfield
      split at hfield
      · cases hfield
      split at hfield
      · rename_i htoken
        cases hfield
        exact htoken
      · cases hfield
    · exact ih hrest f hf

/-- **The names in what is read are tokens**, and so is the method. -/
theorem readRequest_tokens {request : Request} (h : readRequest bs = some (request, rest)) :
    isToken request.method ∧ request.target ≠ [] ∧
      ∀ f ∈ request.fields, isToken f.name := by
  unfold readRequest at h
  split at h
  · cases h
  split at h
  · rename_i method target fields tail hread hfields
    split at h
    · cases h
    obtain ⟨p, -, heq⟩ := Option.map_eq_some_iff.mp h
    cases heq
    have hline : isToken method ∧ target ≠ [] := by
      unfold readRequestLine at hread
      split at hread
      · split at hread
        · rename_i hok
          cases hread
          exact ⟨hok.1, hok.2.1⟩
        · cases hread
      · cases hread
    exact ⟨hline.1, hline.2, readFields_tokens hfields⟩
  · cases h

end Cockpit.Lib
