import Cockpit.Lib.BigEndian
import Cockpit.Lib.Incremental
import Cockpit.Common.GLib

namespace Cockpit.WebSocket

open Lib List UInt8

/-!
# The frames of RFC 6455 in `src/websocket/websocketconnection.c`

`RawFrame.encode` is how `send_prefixed_message_rfc6455` lays out a frame and `scanFrame` how
`process_frame_rfc6455` finds one at the front of its buffer.

* `framing` — reading frames is stable under more input;
* `scanFrame_encode` — a frame that was laid out is found again, for every length form and
  every mask.
-/

/-! ### Masking -/

/-- The four bytes in memory of what `g_random_int` returns. -/
def maskBytes (r : UInt32) : Bytes :=
  [r.toUInt8, (r >>> 8).toUInt8, (r >>> 16).toUInt8, (r >>> 24).toUInt8]

/-- `xor_with_mask_rfc6455` -/
def xorWithMask (mask data : Bytes) : Bytes :=
  data.mapIdx (fun n b => b ^^^ mask.getD (n &&& 3) 0)

@[simp] theorem length_xorWithMask (mask data : Bytes) :
    (xorWithMask mask data).length = data.length := length_mapIdx

/-- Masking twice is not masking. -/
theorem xorWithMask_xorWithMask (mask data : Bytes) :
    xorWithMask mask (xorWithMask mask data) = data := by
  unfold xorWithMask
  refine ext_getElem (by simp) ?_
  intro n _ _
  rw [getElem_mapIdx, getElem_mapIdx, UInt8.xor_assoc, UInt8.xor_self, UInt8.xor_zero]

/-! ### Writing a frame -/

/-- A final frame; `mask` is there on the client side. -/
structure RawFrame where
  opcode : UInt8
  mask : Option UInt32
  payload : Bytes

/-- The second byte without the mask bit, and the extended length. -/
def lengthHeader (size : Nat) : UInt8 × Bytes :=
  if size < 126 then (ofNat size, [])
  else if size < 65536 then (126, bigEndian 2 size)
  else (127, bigEndian 8 size)

/-- The bytes of a frame. -/
def RawFrame.encode (f : RawFrame) : Bytes :=
  let length := lengthHeader f.payload.length
  match f.mask with
  | none => (0x80 ||| f.opcode) :: length.1 :: (length.2 ++ f.payload)
  | some r =>
    (0x80 ||| f.opcode) :: (length.1 ||| 0x80) ::
      (length.2 ++ (maskBytes r ++ xorWithMask (maskBytes r) f.payload))

/-! ### Finding a frame -/

/-- `MAX_PAYLOAD` -/
def maxPayload : Nat := 128 * 1024

/-- What `process_contents_rfc6455` is called with. -/
structure Contents where
  control : Bool
  fin : Bool
  opcode : UInt8
  payload : Bytes
  deriving DecidableEq, Repr

/-- Where the payload or the mask starts, by the second byte of the header. -/
def payloadAt (h1 : UInt8) : Nat :=
  if h1 &&& 0x7f = 126 then 4 else if h1 &&& 0x7f = 127 then 10 else 2

/-- The length that a header of `payloadAt h1` bytes announces. -/
def payloadLength (h1 : UInt8) (header : Bytes) : Nat :=
  if payloadAt h1 = 2 then (h1 &&& 0x7f).toNat else bigEndianValue (header.drop 2)

/-- The first part of `process_frame_rfc6455`, with the first two bytes of `incoming` at hand:
    more data is needed, or the payload is too big, or there is a frame of so many bytes. -/
def scanPayload (h0 h1 : UInt8) (incoming : Bytes) : Scan Contents :=
  let start := payloadAt h1
  let contents := Contents.mk (h0 &&& 0x08 != 0) (h0 &&& 0x80 != 0) (h0 &&& 0x0f)
  let len := payloadLength h1 (incoming.take start)
  if incoming.length < start then .more
  else if len ≥ maxPayload then .fail
  else if incoming.length < start + len then .more
  else if h1 &&& 0x80 = 0 then .item (start + len) (contents ((incoming.drop start).take len))
  else if incoming.length < start + 4 + len then .more
  else
    .item (start + 4 + len) (contents
      (xorWithMask ((incoming.drop start).take 4) ((incoming.drop (start + 4)).take len)))

/-- What the front of the buffer holds. -/
def scanFrame (incoming : Bytes) : Scan Contents :=
  match incoming with
  | h0 :: h1 :: _ => scanPayload h0 h1 incoming
  | _ => .more

/-- The header has at least two bytes. -/
theorem two_le_payloadAt (h1 : UInt8) : 2 ≤ payloadAt h1 := by
  unfold payloadAt
  split
  · omega
  · split <;> omega

variable {h1 : UInt8} {incoming : Bytes} {h0 : UInt8} {n : Nat} {c : Contents}

/-- A frame has a length, and it is all there. -/
theorem scanPayload_item
    (h : scanPayload h0 h1 incoming = .item n c) : 0 < n ∧ n ≤ incoming.length := by
  have hpos := two_le_payloadAt h1
  simp only [scanPayload] at h
  split_ifs at h <;> rw [Scan.item.injEq] at h <;> omega

/-- Where the scan does not ask for more, more bytes do not change it. -/
theorem scanPayload_append (more : Bytes) (h : scanPayload h0 h1 incoming ≠ .more) :
    scanPayload h0 h1 (incoming ++ more) = scanPayload h0 h1 incoming := by
  have hstart : ¬ incoming.length < payloadAt h1 := by
    intro hlt
    exact h (by simp only [scanPayload, if_pos hlt])
  have htake : (incoming ++ more).take (payloadAt h1) = incoming.take (payloadAt h1) :=
    take_append_of_le_length (by omega)
  have hlen : (incoming ++ more).length = incoming.length + more.length := List.length_append
  simp only [scanPayload, htake, hlen] at h ⊢
  generalize payloadLength h1 (incoming.take (payloadAt h1)) = len at h ⊢
  rw [if_neg hstart] at h ⊢
  rw [if_neg (by omega)]
  by_cases hbig : len ≥ maxPayload
  · rw [if_pos hbig, if_pos hbig]
  rw [if_neg hbig] at h ⊢
  rw [if_neg hbig]
  by_cases hall : incoming.length < payloadAt h1 + len
  · exact absurd (if_pos hall) h
  rw [if_neg hall] at h ⊢
  rw [if_neg (by omega)]
  by_cases hmask : h1 &&& 0x80 = 0
  · rw [if_pos hmask, if_pos hmask, take_drop_append (by omega)]
  rw [if_neg hmask] at h ⊢
  rw [if_neg hmask]
  by_cases hall' : incoming.length < payloadAt h1 + 4 + len
  · exact absurd (if_pos hall') h
  rw [if_neg hall', if_neg (by omega), take_drop_append (by omega), take_drop_append (by omega)]

/-- Where the scan does not ask for more, more bytes do not change it. -/
theorem scanFrame_append (more : Bytes) (h : scanFrame incoming ≠ .more) :
    scanFrame (incoming ++ more) = scanFrame incoming := by
  match incoming, h with
  | [], h | [_], h => exact absurd rfl h
  | h0 :: h1 :: rest, h => exact scanPayload_append more h

theorem scanFrame_item (h : scanFrame incoming = .item n c) : 0 < n ∧ n ≤ incoming.length := by
  match incoming, h with
  | [], h | [_], h => exact absurd h (by simp [scanFrame])
  | h0 :: h1 :: rest, h => exact scanPayload_item h

/-- Reading frames, as incremental reading. -/
def framing : Framing UInt8 Contents where
  scan := scanFrame
  item_pos h := (scanFrame_item h).1
  item_le h := (scanFrame_item h).2
  item_append ys h := (scanFrame_append ys (by rw [h]; simp)).trans h
  fail_append ys h := (scanFrame_append ys (by rw [h]; simp)).trans h

/-! ### A frame is found again -/

/-- Setting the mask bit changes no other. -/
theorem mask_bit (b : UInt8) :
    (b ||| 0x80) &&& 0x7f = b &&& 0x7f ∧ (b ||| 0x80) &&& 0x80 ≠ 0 := by
  have h : ∀ n : Fin 256, (UInt8.ofNat n.val ||| 0x80) &&& 0x7f = UInt8.ofNat n.val &&& 0x7f ∧
      (UInt8.ofNat n.val ||| 0x80) &&& 0x80 ≠ 0 := by decide +kernel
  have hb := h ⟨b.toNat, b.toNat_lt⟩
  rwa [UInt8.ofNat_toNat] at hb

/-- The first byte of a frame. -/
theorem opcode_bits {op : UInt8} (h : op < 16) : (0x80 ||| op) &&& 0x08 = op &&& 0x08 ∧
    (0x80 ||| op) &&& 0x80 ≠ 0 ∧ (0x80 ||| op) &&& 0x0f = op := by
  have hall : ∀ n : Fin 16, (0x80 ||| UInt8.ofNat n.val) &&& 0x08 = UInt8.ofNat n.val &&& 0x08 ∧
      (0x80 ||| UInt8.ofNat n.val) &&& 0x80 ≠ 0 ∧
      (0x80 ||| ofNat n.val) &&& 0x0f = ofNat n.val := by decide
  have hop := hall ⟨op.toNat, lt_iff_toNat_lt.mp h⟩
  rwa [UInt8.ofNat_toNat] at hop

/-- The short form of the length. -/
theorem short_length : ∀ n : Fin 126, payloadAt (ofNat n.val) = 2 ∧
    (ofNat n.val &&& 0x7f).toNat = n.val ∧ ofNat n.val &&& 0x80 = 0 := by
  decide

/-- The three forms of the length: where the payload starts, and what is announced. -/
theorem lengthHeader_spec (size : Nat) (hsize : size < 2 ^ 64) (x y : UInt8) :
    payloadAt (lengthHeader size).1 = 2 + (lengthHeader size).2.length ∧
      payloadLength (lengthHeader size).1 (x :: y :: (lengthHeader size).2) = size ∧
      (lengthHeader size).1 &&& 0x80 = 0 := by
  unfold lengthHeader
  split
  · rename_i h
    obtain ⟨hat, hlen, hmask⟩ := short_length ⟨size, h⟩
    exact ⟨hat, by rw [payloadLength, if_pos hat]; exact hlen, hmask⟩
  split
  · rename_i h
    have hat : payloadAt 126 = 4 := by decide
    refine ⟨by rw [length_bigEndian]; exact hat, ?_, (by decide : (126 : UInt8) &&& 0x80 = 0)⟩
    rw [payloadLength, if_neg (by rw [hat]; omega)]
    exact bigEndianValue_bigEndian (by omega)
  have hat : payloadAt 127 = 10 := by decide
  refine ⟨by rw [length_bigEndian]; exact hat, ?_, (by decide : (127 : UInt8) &&& 0x80 = 0)⟩
  rw [payloadLength, if_neg (by rw [hat]; omega)]
  exact bigEndianValue_bigEndian (by omega)

/-- The mask bit is not part of the length. -/
theorem payloadAt_mask (b : UInt8) : payloadAt (b ||| 0x80) = payloadAt b := by
  simp only [payloadAt, (mask_bit b).1]

theorem payloadLength_mask (b : UInt8) (header : Bytes) :
    payloadLength (b ||| 0x80) header = payloadLength b header := by
  simp only [payloadLength, payloadAt_mask, (mask_bit b).1]

/-- A header with an unmasked payload behind it. -/
theorem scanPayload_unmasked (h0 : UInt8) (header : Bytes) {payload : Bytes}
    (hat : payloadAt h1 = header.length) (hlen : payloadLength h1 header = payload.length)
    (hsize : payload.length < maxPayload) (hmask : h1 &&& 0x80 = 0) (rest : Bytes) :
    scanPayload h0 h1 (header ++ (payload ++ rest)) = .item (header.length + payload.length)
      ⟨h0 &&& 0x08 != 0, h0 &&& 0x80 != 0, h0 &&& 0x0f, payload⟩ := by
  have hall : (header ++ (payload ++ rest)).length =
      header.length + payload.length + rest.length := by
    rw [List.length_append, List.length_append]
    omega
  simp only [scanPayload, hat, take_left, hlen, hall]
  rw [if_neg (by omega), if_neg (by omega), if_neg (by omega), if_pos hmask, drop_left, take_left]

/-- A header with a mask and a masked payload behind it. -/
theorem scanPayload_masked (h0 : UInt8) (header mask payload : Bytes)
    (hat : payloadAt h1 = header.length) (hlen : payloadLength h1 header = payload.length)
    (hsize : payload.length < maxPayload) (hmask : h1 &&& 0x80 ≠ 0) (hfour : mask.length = 4)
    (rest : Bytes) :
    scanPayload h0 h1 (header ++ (mask ++ (payload ++ rest))) =
      .item (header.length + 4 + payload.length)
        ⟨h0 &&& 0x08 != 0, h0 &&& 0x80 != 0, h0 &&& 0x0f, xorWithMask mask payload⟩ := by
  have hall : (header ++ (mask ++ (payload ++ rest))).length =
      header.length + 4 + payload.length + rest.length := by
    rw [List.length_append, List.length_append, List.length_append]
    omega
  have hdrop : (header ++ (mask ++ (payload ++ rest))).drop (header.length + 4) =
      payload ++ rest := by
    rw [← drop_drop, drop_left, ← hfour, drop_left]
  have htake : (mask ++ (payload ++ rest)).take 4 = mask := by rw [← hfour, take_left]
  simp only [scanPayload, hat, take_left, hlen, hall]
  rw [if_neg (by omega), if_neg (by omega), if_neg (by omega), if_neg hmask, if_neg (by omega),
    drop_left, htake, hdrop, take_left]

/-- **A frame is found again**, with anything behind it. -/
theorem scanFrame_encode (f : RawFrame) (hop : f.opcode < 16)
    (hsize : f.payload.length < maxPayload) (rest : Bytes) :
    scanFrame (f.encode ++ rest) =
      .item f.encode.length ⟨f.opcode &&& 0x08 != 0, true, f.opcode, f.payload⟩ := by
  obtain ⟨hctl, hfin, hopcode⟩ := opcode_bits hop
  have hfin' : ((0x80 ||| f.opcode) &&& 0x80 != 0) := by simpa using hfin
  have h64 : f.payload.length < 2 ^ 64 := by unfold maxPayload at hsize; omega
  simp only [RawFrame.encode]
  generalize hext : lengthHeader f.payload.length = ext
  cases hm : f.mask with
  | none =>
    obtain ⟨hat, hlen, hmask⟩ :=
      lengthHeader_spec f.payload.length h64 (0x80 ||| f.opcode) ext.1
    rw [hext] at hat hlen hmask
    have hscan := scanPayload_unmasked (0x80 ||| f.opcode)
      ((0x80 ||| f.opcode) :: ext.1 :: ext.2) (by simp [hat]; omega) hlen hsize hmask rest
    rw [hctl, hfin', hopcode] at hscan
    have htotal : ((0x80 ||| f.opcode) :: ext.1 :: (ext.2 ++ f.payload)).length =
        ((0x80 ||| f.opcode) :: ext.1 :: ext.2).length + f.payload.length := by
      simp only [length_cons, List.length_append]
      omega
    rw [htotal, ← hscan]
    simp [scanFrame]
  | some r =>
    obtain ⟨hat, hlen, hmask⟩ :=
      lengthHeader_spec f.payload.length h64 (0x80 ||| f.opcode) (ext.1 ||| 0x80)
    rw [hext] at hat hlen hmask
    have hscan := scanPayload_masked (0x80 ||| f.opcode)
      ((0x80 ||| f.opcode) :: (ext.1 ||| 0x80) :: ext.2) (maskBytes r)
      (xorWithMask (maskBytes r) f.payload)
      (by rw [payloadAt_mask]; simp [hat]; omega)
      (by rw [payloadLength_mask, length_xorWithMask]; exact hlen)
      (by rw [length_xorWithMask]; exact hsize) (mask_bit ext.1).2 rfl rest
    rw [hctl, hfin', hopcode, xorWithMask_xorWithMask, length_xorWithMask] at hscan
    have htotal : ((0x80 ||| f.opcode) :: (ext.1 ||| 0x80) :: (ext.2 ++ (maskBytes r ++
          xorWithMask (maskBytes r) f.payload))).length =
        ((0x80 ||| f.opcode) :: (ext.1 ||| 0x80) :: ext.2).length + 4 + f.payload.length := by
      have hfour : (maskBytes r).length = 4 := rfl
      simp only [length_cons, List.length_append, hfour, length_xorWithMask]
      omega
    rw [htotal, ← hscan]
    simp [scanFrame]

end Cockpit.WebSocket
