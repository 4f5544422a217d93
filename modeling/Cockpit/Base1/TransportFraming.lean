import Cockpit.Base1.Location
import Cockpit.Base1.StreamBuffer

namespace Cockpit.Page

open List

/-!
# `src/base1/cockpit.js`: the framing of the transport

A message is the channel, a newline and the payload, as a text or as bytes.  Strings are lists of
code units.

* `Framing.dispatchData_text`, `Framing.dispatchData_buffer` — what a message arrives as;
* `Framing.dispatch_send_iff` — which payloads arrive as they were sent.
-/

namespace Framing

/-- What `send_message` is called with. -/
inductive Payload where
  | text (s : List Nat)
  | array (bytes : List UInt8)
  | uint8Array (bytes : List UInt8)
  | arrayBuffer (bytes : List UInt8)

/-- What a WebSocket sends, and what it hands out. -/
inductive Data where
  | text (s : List Nat)
  | buffer (bytes : List UInt8)
  deriving DecidableEq

/-- `array_from_raw_string` -/
def arrayFromRawString (str : List Nat) : List UInt8 := str.map UInt8.ofNat

/-- `payload.byteLength || is_array (payload)`: an object that is not empty, or an `Array` -/
def isBinary : Payload → Bool
  | .text _ => false
  | .array _ => true
  | .uint8Array bytes | .arrayBuffer bytes => bytes.length ≠ 0

/-- The bytes of a payload that is binary. -/
def bytesOf : Payload → List UInt8
  | .text _ => []
  | .array bytes | .uint8Array bytes | .arrayBuffer bytes => bytes

/-- `"" + payload` -/
def toText : Payload → List Nat
  | .text s => s
  | .array bytes | .uint8Array bytes =>
    [44].intercalate (bytes.map fun byte => units (toString byte.toNat))
  | .arrayBuffer _ => units "[object ArrayBuffer]"

/-- `send_message`, without filters: what `ws.send` is called with -/
def sendMessage (payload : Payload) (channel : List Nat) : Data :=
  if isBinary payload then .buffer (joinData [arrayFromRawString channel, [10], bytesOf payload] true)
  else .text (channel ++ [10] ++ toText payload)

/-- `parse_channel` -/
def parseChannel : Data → Option (List Nat)
  | .buffer binary =>
    let pos := binary.idxOf 10
    if pos = binary.length ∨ pos = 0 then none
    else some ((binary.take pos).map UInt8.toNat)
  | .text data =>
    let pos := data.idxOf 10
    if pos = data.length then none else some (data.take pos)

/-- What `dispatch_data` does with a message; `JSON.parse` gives a `J`. -/
inductive Dispatch (J : Type) where
  | dropped
  /-- `JSON.parse` throws. -/
  | threw
  /-- `process_control`, and the payload it was parsed from -/
  | control (payload : Data) (control : J)
  /-- `process_message` -/
  | message (channel : List Nat) (payload : Data)
  deriving DecidableEq

variable {J : Type}

/-- `"" + payload`, for what is received -/
def asText : Data → List Nat
  | .text s => s
  | .buffer bytes => toText (.uint8Array bytes)

/-- `dispatch_data`, without filters -/
def dispatchData (parse : List Nat → Option J) (message : Data) : Dispatch J :=
  match parseChannel message with
  | none => .dropped
  | some channel =>
    let payload := match message with
      | .buffer bytes => .buffer (bytes.drop (channel.length + 1))
      | .text s => .text (s.drop (channel.length + 1))
    if channel = [] then
      match parse (asText payload) with
      | none => .threw
      | some control => .control payload control
    else .message channel payload

/-- The channel and the payload, when the message is passed on. -/
def Dispatch.received : Dispatch J → Option (List Nat × Data)
  | .dropped | .threw => none
  | .control payload _ => some ([], payload)
  | .message channel payload => some (channel, payload)

/-- A payload as it was meant: a text or bytes. -/
def meant : Payload → Data
  | .text s => .text s
  | payload => .buffer (bytesOf payload)

theorem idxOf_newline {α : Type} [DecidableEq α] {a : α} {s : List α} (h : a ∉ s) (rest : List α) :
    (s ++ a :: rest).idxOf a = s.length := by
  rw [idxOf_append_of_notMem h, idxOf_cons_self, Nat.add_zero]

variable {channel : List Nat} (parse : List Nat → Option J)

/-- **A text arrives**, on the empty channel when it is JSON. -/
theorem dispatchData_text (hline : 10 ∉ channel) (s : List Nat) :
    (dispatchData parse (.text (channel ++ [10] ++ s))).received =
      if channel = [] ∧ parse s = none then none else some (channel, .text s) := by
  have happend : channel ++ [10] ++ s = channel ++ 10 :: s := by simp
  rw [happend]
  have hparse : parseChannel (.text (channel ++ 10 :: s)) = some channel := by
    simp [parseChannel, idxOf_newline hline]
  have hdrop : (channel ++ 10 :: s).drop (channel.length + 1) = s := by simp
  unfold dispatchData
  rw [hparse]
  dsimp only
  rw [hdrop]
  by_cases hempty : channel = []
  · cases hjson : parse s <;> simp [hempty, asText, hjson, Dispatch.received]
  · simp [hempty, Dispatch.received]

/-- **Bytes arrive.** -/
theorem dispatchData_buffer (hascii : ∀ c ∈ channel, c < 128)
    (hline : 10 ∉ channel) (hne : channel ≠ []) (bytes : List UInt8) :
    dispatchData parse (.buffer (arrayFromRawString channel ++ 10 :: bytes)) =
      .message channel (.buffer bytes) := by
  have hback : (arrayFromRawString channel).map UInt8.toNat = channel := by
    unfold arrayFromRawString
    rw [map_map]
    refine (map_congr_left fun c hc => ?_).trans (map_id channel)
    have := hascii c hc
    simp
    omega
  have hnewline : (10 : UInt8) ∉ arrayFromRawString channel := fun hmem =>
    hline (hback ▸ mem_map_of_mem hmem)
  have hlen : (arrayFromRawString channel).length = channel.length := length_map _
  have hparse : parseChannel (.buffer (arrayFromRawString channel ++ 10 :: bytes)) =
      some channel := by
    simp [parseChannel, idxOf_newline hnewline, hback, hlen, hne]
  unfold dispatchData
  rw [hparse]
  simp [drop_append, hlen, hne]

/-- **A payload arrives as it was sent**, unless it is an empty `Uint8Array` or `ArrayBuffer`, or a
    control message that is not JSON. -/
theorem dispatch_send_iff {channel : List Nat} (hascii : ∀ c ∈ channel, c < 128)
    (hline : 10 ∉ channel) (payload : Payload)
    (hchannel : (∃ s, payload = .text s) ∨ channel ≠ []) :
    (dispatchData parse (sendMessage payload channel)).received =
        some (channel, meant payload) ↔
      payload ≠ .uint8Array [] ∧ payload ≠ .arrayBuffer [] ∧
        (channel = [] → ∀ s, payload = .text s → (parse s).isSome) := by
  have hbinary : isBinary payload → channel ≠ [] →
      (dispatchData parse (sendMessage payload channel)).received =
        some (channel, .buffer (bytesOf payload)) := by
    intro hbinary hne
    unfold sendMessage
    rw [if_pos hbinary, joinData_eq_flatten]
    exact congrArg Dispatch.received ((congrArg (fun bytes => dispatchData parse (.buffer bytes))
      (by simp)).trans (dispatchData_buffer parse hascii hline hne (bytesOf payload)))
  have htext : isBinary payload = false →
      (dispatchData parse (sendMessage payload channel)).received =
        if channel = [] ∧ parse (toText payload) = none then none
        else some (channel, .text (toText payload)) := by
    intro hbinary
    unfold sendMessage
    rw [hbinary]
    exact dispatchData_text parse hline (toText payload)
  cases payload with
  | text s =>
    rw [htext rfl]
    by_cases hempty : channel = []
    · cases hjson : parse s <;> simp [meant, toText, hempty, hjson]
    · simp [meant, toText, hempty]
  | array bytes =>
    rw [hbinary rfl (hchannel.resolve_left (by simp))]
    simp [meant]
  | uint8Array bytes | arrayBuffer bytes =>
    have hne : channel ≠ [] := hchannel.resolve_left (by simp)
    cases bytes with
    | nil =>
      rw [htext rfl, if_neg fun h => hne h.1]
      simp [meant]
    | cons byte bytes =>
      rw [hbinary rfl hne]
      simp [meant]

/-- A channel and an array without bytes. -/
theorem dispatch_send_empty_array :
    (dispatchData (fun _ => (none : Option Unit)) (sendMessage (.array []) [97])).received =
      some ([97], .buffer []) :=
  (dispatch_send_iff _ (by decide) (by decide) (.array []) (.inr (by decide))).mpr
    ⟨by simp, by simp, by simp⟩

/-- A `Uint8Array` without bytes arrives as a text. -/
theorem not_dispatch_send_empty :
    (dispatchData (fun _ => (none : Option Unit)) (sendMessage (.uint8Array []) [97])).received ≠
      some ([97], meant (.uint8Array [])) := by
  decide

end Framing

end Cockpit.Page
