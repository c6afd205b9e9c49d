/-
# Frames

The frame layer of `rsdb-proto`: a 24-byte header (magic, version, kind, flags,
request id, payload length, four zero bytes), then the payload. A stream frame
packs its channel and its eof bit into the flags.

The header survives the wire (`decode_encode`) and so do the flags of a stream
frame (`decodeStreamFrameHeader_streamHeader`); a write is the header and the
payload as two separate writes to the sink (`writeFrame_fst_ok`), or nothing at
all for a payload over `maxPayloadLen` (`writeFrame_of_too_large`).
-/
import Rsdb.Lib.ByteStream
import Rsdb.Lib.LittleEndian
import Mathlib.Data.UInt

namespace Rsdb

/-- The four bytes a frame begins with, `RSDB`. -/
def magic : Bytes := [82, 83, 68, 66]

/-- The version both sides speak. -/
def protocolVersion : UInt16 := 2

/-- How long a header is. -/
def headerLen : ℕ := 24

/-- The longest payload a frame may have. -/
def maxPayloadLen : ℕ := 16 * 1024 * 1024

/-- The flag of the last frame on a channel. -/
def streamEofFlag : UInt32 := (1 : UInt32) <<< 31

/-- The bits of the flags that say the channel. -/
def streamChannelMask : UInt32 := 0xff

/-- How much of a file or an output goes into one frame. -/
def defaultStreamChunkSize : ℕ := 64 * 1024

/-- What a frame is for. -/
inductive FrameKind where
  | request | response | event | stream
  deriving DecidableEq

/-- What the bytes of a stream frame belong to. -/
inductive StreamChannel where
  | file | stdin | stdout | stderr
  deriving DecidableEq

/-- How reading and writing frames fails. -/
inductive ProtocolError where
  | io (kind : IoErrorKind)
  | json (message : Bytes)
  | invalidMagic (bytes : Bytes)
  | unsupportedVersion (version : UInt16)
  | unknownFrameKind (kind : UInt16)
  | unknownStreamChannel (channel : UInt32)
  | invalidDiscoveryMagic
  | payloadTooLarge (len : ℕ)
  | discoveryPayloadTooLarge (len : ℕ)
  | unexpectedFrameKind (expected actual : FrameKind)
  deriving DecidableEq

namespace FrameKind

/-- The number of a kind in a header. -/
def toU16 : FrameKind → UInt16
  | request => 1
  | response => 2
  | event => 3
  | stream => 4

/-- The kind with a number. -/
def fromU16 (value : UInt16) : Except ProtocolError FrameKind :=
  if value = 1 then .ok request
  else if value = 2 then .ok response
  else if value = 3 then .ok event
  else if value = 4 then .ok stream
  else .error (.unknownFrameKind value)

@[simp] theorem fromU16_toU16 (k : FrameKind) : fromU16 k.toU16 = .ok k := by
  cases k <;> rfl

end FrameKind

namespace StreamChannel

/-- The number of a channel in the flags. -/
def toU32 : StreamChannel → UInt32
  | file => 1
  | stdin => 2
  | stdout => 3
  | stderr => 4

/-- The channel with a number. -/
def fromU32 (value : UInt32) : Except ProtocolError StreamChannel :=
  if value = 1 then .ok file
  else if value = 2 then .ok stdin
  else if value = 3 then .ok stdout
  else if value = 4 then .ok stderr
  else .error (.unknownStreamChannel value)

end StreamChannel

/-- What comes before a payload. -/
structure FrameHeader where
  version : UInt16
  kind : FrameKind
  flags : UInt32
  requestId : UInt32
  payloadLen : UInt32
  deriving DecidableEq

/-- A header with its payload. -/
structure Frame where
  header : FrameHeader
  payload : Bytes
  deriving DecidableEq

/-- What the header of a stream frame says. -/
structure StreamFrameHeader where
  requestId : UInt32
  channel : StreamChannel
  eof : Bool
  deriving DecidableEq

/-! ### The header -/

/-- The bytes of a header: exactly `headerLen` of them. -/
abbrev HeaderBytes := { bytes : Bytes // bytes.length = headerLen }

/-- The bytes `lo .. hi` of a list. -/
def slice (bytes : Bytes) (lo hi : ℕ) : Bytes := (bytes.drop lo).take (hi - lo)

namespace FrameHeader

/-- The bytes of a header, all numbers little-endian, the last four bytes unused. -/
def encode (h : FrameHeader) : HeaderBytes :=
  ⟨magic ++ leBytes 2 h.version.toNat ++ leBytes 2 h.kind.toU16.toNat ++ leBytes 4 h.flags.toNat ++
    leBytes 4 h.requestId.toNat ++ leBytes 4 h.payloadLen.toNat ++ leBytes 4 0, rfl⟩

/-- The header that bytes say, with the checks in the order of the code. -/
def decode (bytes : HeaderBytes) : Except ProtocolError FrameHeader :=
  if slice bytes 0 4 ≠ magic then .error (.invalidMagic (slice bytes 0 4))
  else
    let version := UInt16.ofNat (leNat (slice bytes 4 6))
    match FrameKind.fromU16 (UInt16.ofNat (leNat (slice bytes 6 8))) with
    | .error err => .error err
    | .ok kind =>
      let flags := UInt32.ofNat (leNat (slice bytes 8 12))
      let requestId := UInt32.ofNat (leNat (slice bytes 12 16))
      let payloadLen := UInt32.ofNat (leNat (slice bytes 16 20))
      if version ≠ protocolVersion then .error (.unsupportedVersion version)
      else if payloadLen.toNat > maxPayloadLen then .error (.payloadTooLarge payloadLen.toNat)
      else .ok ⟨version, kind, flags, requestId, payloadLen⟩

theorem encode_length (h : FrameHeader) : h.encode.1.length = headerLen := h.encode.2

/-! The slices `decode` reads are the fields `encode` wrote. -/

theorem slice_magic (h : FrameHeader) : slice h.encode 0 4 = magic := rfl
theorem slice_version (h : FrameHeader) : slice h.encode 4 6 = leBytes 2 h.version.toNat := rfl
theorem slice_kind (h : FrameHeader) : slice h.encode 6 8 = leBytes 2 h.kind.toU16.toNat := rfl
theorem slice_flags (h : FrameHeader) : slice h.encode 8 12 = leBytes 4 h.flags.toNat := rfl
theorem slice_requestId (h : FrameHeader) : slice h.encode 12 16 = leBytes 4 h.requestId.toNat := rfl
theorem slice_payloadLen (h : FrameHeader) : slice h.encode 16 20 = leBytes 4 h.payloadLen.toNat := rfl

theorem u16_round_trip (v : UInt16) : UInt16.ofNat (leNat (leBytes 2 v.toNat)) = v := by
  rw [leNat_leBytes_of_lt (by simpa using v.toNat_lt), UInt16.ofNat_toNat]

theorem u32_round_trip (v : UInt32) : UInt32.ofNat (leNat (leBytes 4 v.toNat)) = v := by
  rw [leNat_leBytes_of_lt (by simpa using v.toNat_lt), UInt32.ofNat_toNat]

/-- A header of this protocol version and a legal length survives the wire. -/
theorem decode_encode (h : FrameHeader) (hv : h.version = protocolVersion)
    (hl : h.payloadLen.toNat ≤ maxPayloadLen) : decode h.encode = .ok h := by
  simp only [decode, slice_magic, slice_version, slice_kind, slice_flags, slice_requestId,
    slice_payloadLen, u16_round_trip, u32_round_trip, FrameKind.fromU16_toU16, ne_eq, not_true_eq_false,
    ↓reduceIte, hv]
  rw [if_neg (by omega), ← hv]

end FrameHeader

/-! ### Writing -/

/-- The header of a payload. -/
def frameHeader (kind : FrameKind) (flags requestId : UInt32) (payload : Bytes) : FrameHeader :=
  ⟨protocolVersion, kind, flags, requestId, UInt32.ofNat payload.length⟩

/-- The two writes of a frame, unless its payload is too large. -/
def writeHeaderAndPayload {W : Type} [AsyncWrite W] (writer : W) (kind : FrameKind)
    (flags requestId : UInt32) (payload : Bytes) : Except ProtocolError Unit × W :=
  if payload.length > maxPayloadLen then (.error (.payloadTooLarge payload.length), writer)
  else
    let header := frameHeader kind flags requestId payload
    (.ok (), writeAll (writeAll writer header.encode.1) payload)

/-- A frame that belongs to no stream is written with no flags. -/
def writeFrame {W : Type} [AsyncWrite W] (writer : W) (kind : FrameKind) (requestId : UInt32)
    (payload : Bytes) : Except ProtocolError Unit × W :=
  writeHeaderAndPayload writer kind 0 requestId payload

/-- The flags of a stream frame: the channel, and whether it is the last one. -/
def streamFlags (channel : StreamChannel) (eof : Bool) : UInt32 :=
  if eof then channel.toU32 ||| streamEofFlag else channel.toU32

/-- A stream frame is written with its channel in the flags. -/
def writeStreamFrame {W : Type} [AsyncWrite W] (writer : W) (requestId : UInt32)
    (channel : StreamChannel) (eof : Bool) (payload : Bytes) : Except ProtocolError Unit × W :=
  writeHeaderAndPayload writer .stream (streamFlags channel eof) requestId payload

/-- A frame on the wire. -/
def Frame.bytes (f : Frame) : Bytes := f.header.encode.1 ++ f.payload

/-- The frames the writers produce: the header counts the payload, which is not
too large, and is of this protocol version. -/
structure Frame.Valid (f : Frame) : Prop where
  version : f.header.version = protocolVersion
  payloadLen : f.header.payloadLen.toNat = f.payload.length
  fits : f.payload.length ≤ maxPayloadLen

/-- The frame a write puts on the wire. -/
def mkFrame (kind : FrameKind) (flags requestId : UInt32) (payload : Bytes) : Frame :=
  ⟨frameHeader kind flags requestId payload, payload⟩

theorem mkFrame_valid {kind : FrameKind} {flags requestId : UInt32} {payload : Bytes}
    (h : payload.length ≤ maxPayloadLen) : (mkFrame kind flags requestId payload).Valid where
  version := rfl
  payloadLen := by
    have h32 : maxPayloadLen < 2 ^ 32 := by decide
    exact UInt32.toNat_ofNat_of_lt' (lt_of_le_of_lt h h32)
  fits := h

theorem Frame.bytes_length (f : Frame) : f.bytes.length = headerLen + f.payload.length := by
  rw [Frame.bytes, List.length_append, f.header.encode_length]

theorem writeHeaderAndPayload_of_too_large {W : Type} [AsyncWrite W] (writer : W) (kind : FrameKind)
    (flags requestId : UInt32) {payload : Bytes} (h : payload.length > maxPayloadLen) :
    writeHeaderAndPayload writer kind flags requestId payload =
      (.error (.payloadTooLarge payload.length), writer) := if_pos h

theorem writeHeaderAndPayload_of_le {W : Type} [AsyncWrite W] (writer : W) (kind : FrameKind)
    (flags requestId : UInt32) {payload : Bytes} (h : payload.length ≤ maxPayloadLen) :
    writeHeaderAndPayload writer kind flags requestId payload =
      (.ok (), writeAll (writeAll writer (frameHeader kind flags requestId payload).encode.1) payload) :=
  if_neg (by omega)

/-! ### Reading -/

/-- `read_frame_into` on the bytes left of a stream: the result, what is left,
and the payload buffer. -/
def readFrameInto (input payload : Bytes) : Except ProtocolError FrameHeader × Bytes × Bytes :=
  let head := readExact input (List.replicate headerLen 0)
  if head.1 then
    match FrameHeader.decode ⟨head.2.2, by simp [head]⟩ with
    | .error err => (.error err, head.2.1, payload)
    | .ok header =>
      let body := readExact head.2.1 (resize payload header.payloadLen.toNat)
      if body.1 then (.ok header, body.2) else (.error (.io .unexpectedEof), body.2)
  else (.error (.io .unexpectedEof), head.2.1, payload)

/-- `read_frame`: the payload buffer is a new one. -/
def readFrame (input : Bytes) : Except ProtocolError Frame × Bytes :=
  match readFrameInto input [] with
  | (.error err, left, _) => (.error err, left)
  | (.ok header, left, payload) => (.ok ⟨header, payload⟩, left)

/-- What a header says as that of a stream frame. -/
def decodeStreamFrameHeader (header : FrameHeader) : Except ProtocolError StreamFrameHeader :=
  if header.kind ≠ .stream then .error (.unexpectedFrameKind .stream header.kind)
  else
    match StreamChannel.fromU32 (header.flags &&& streamChannelMask) with
    | .error err => .error err
    | .ok channel => .ok ⟨header.requestId, channel, header.flags &&& streamEofFlag != 0⟩

/-- A frame is read, and has to be one of a stream. -/
def readStreamFrameInto (input payload : Bytes) : Except ProtocolError StreamFrameHeader × Bytes × Bytes :=
  match readFrameInto input payload with
  | (.error err, left) => (.error err, left)
  | (.ok header, left) => (decodeStreamFrameHeader header, left)

theorem fromU32_streamFlags (channel : StreamChannel) (eof : Bool) :
    StreamChannel.fromU32 (streamFlags channel eof &&& streamChannelMask) = .ok channel := by
  cases channel <;> cases eof <;> rfl

theorem eof_streamFlags (channel : StreamChannel) (eof : Bool) :
    (streamFlags channel eof &&& streamEofFlag != 0) = eof := by
  cases channel <;> cases eof <;> decide

/-- The flags of a stream frame give its channel and its eof bit back. -/
theorem decodeStreamFrameHeader_mkFrame (requestId : UInt32) (channel : StreamChannel) (eof : Bool)
    (payload : Bytes) :
    decodeStreamFrameHeader (mkFrame .stream (streamFlags channel eof) requestId payload).header =
      .ok ⟨requestId, channel, eof⟩ := by
  simp only [decodeStreamFrameHeader, mkFrame, frameHeader, ne_eq, not_true_eq_false, ↓reduceIte,
    fromU32_streamFlags, eof_streamFlags]

/-- The channel of a stream frame. -/
def Frame.channel? (f : Frame) : Option StreamChannel :=
  match decodeStreamFrameHeader f.header with
  | .ok header => some header.channel
  | .error _ => none

@[simp] theorem Frame.channel?_mkFrame (requestId : UInt32) (channel : StreamChannel) (eof : Bool) (payload : Bytes) :
    (mkFrame .stream (streamFlags channel eof) requestId payload).channel? = some channel := by
  rw [Frame.channel?, decodeStreamFrameHeader_mkFrame]

/-- A frame that is read does not show what the buffer held before. -/
theorem readFrameInto_buffer {input buf : Bytes} {header : FrameHeader} {left : Bytes × Bytes}
    (h : readFrameInto input buf = (.ok header, left)) (buf' : Bytes) :
    readFrameInto input buf' = (.ok header, left) := by
  unfold readFrameInto at h ⊢
  by_cases hhead : (readExact input (List.replicate headerLen 0)).1 = true
  · simp only [hhead, ↓reduceIte] at h ⊢
    cases hdec : FrameHeader.decode ⟨(readExact input (List.replicate headerLen 0)).2.2, by simp⟩ with
    | error err => simp [hdec] at h
    | ok hd =>
      simp only [hdec] at h ⊢
      by_cases hbody : (readExact (readExact input (List.replicate headerLen 0)).2.1
          (resize buf hd.payloadLen.toNat)).1 = true
      · have hlen : (resize buf' hd.payloadLen.toNat).length = (resize buf hd.payloadLen.toNat).length := by simp
        rw [readExact_of_length hlen hbody]
        exact h
      · simp [hbody] at h
  · simp [hhead] at h

/-- A frame that is read takes its header at least. -/
theorem readFrameInto_length {input buf : Bytes} {header : FrameHeader} {rest payload : Bytes}
    (h : readFrameInto input buf = (.ok header, rest, payload)) : rest.length + headerLen ≤ input.length := by
  have hleft : ∀ input buf : Bytes, (readExact input buf).2.1.length ≤ input.length - buf.length := by
    intro input buf
    unfold readExact
    split
    · simp
    · exact Nat.zero_le _
  unfold readFrameInto at h
  by_cases hhead : (readExact input (List.replicate headerLen 0)).1 = true
  · have hlen := readExact_fst.mp hhead
    have hafter := hleft input (List.replicate headerLen 0)
    rw [List.length_replicate] at hlen hafter
    simp only [hhead, ↓reduceIte] at h
    cases hdec : FrameHeader.decode ⟨(readExact input (List.replicate headerLen 0)).2.2, by simp⟩ with
    | error err => simp [hdec] at h
    | ok hd =>
      simp only [hdec] at h
      have hbody := hleft (readExact input (List.replicate headerLen 0)).2.1 (resize buf hd.payloadLen.toNat)
      split at h
      · obtain ⟨-, hrest⟩ := Prod.mk.inj h
        rw [(Prod.mk.inj hrest).1] at hbody
        omega
      · cases (Prod.mk.inj h).1
  · simp [hhead] at h

/-- A frame at the head of the stream is read whole, whatever the buffer held. -/
theorem readFrameInto_bytes {f : Frame} (hf : f.Valid) (rest buf : Bytes) :
    readFrameInto (f.bytes ++ rest) buf = (.ok f.header, rest, f.payload) := by
  have hhead : readExact (f.bytes ++ rest) (List.replicate headerLen 0) =
      (true, f.payload ++ rest, f.header.encode.1) := by
    rw [Frame.bytes, List.append_assoc]
    exact readExact_append _ (by rw [List.length_replicate, f.header.encode_length])
  have hdec : FrameHeader.decode f.header.encode = .ok f.header :=
    FrameHeader.decode_encode _ hf.version (by rw [hf.payloadLen]; exact hf.fits)
  have hbody : readExact (f.payload ++ rest) (resize buf f.header.payloadLen.toNat) =
      (true, rest, f.payload) := readExact_append _ (by rw [resize_length, hf.payloadLen])
  simp only [readFrameInto, hhead, ↓reduceIte, hdec, hbody]

theorem readFrame_bytes {f : Frame} (hf : f.Valid) (rest : Bytes) : readFrame (f.bytes ++ rest) = (.ok f, rest) := by
  rw [readFrame, readFrameInto_bytes hf]

/-- A frame that is cut short is not read. -/
theorem readFrameInto_short {f : Frame} (hf : f.Valid) {n : ℕ} (hn : n < f.bytes.length) (buf : Bytes) :
    (readFrameInto (f.bytes.take n) buf).1 = .error (.io .unexpectedEof) := by
  rw [Frame.bytes_length] at hn
  by_cases hh : n < headerLen
  · have hlen : (f.bytes.take n).length < (List.replicate headerLen (0 : UInt8)).length := by
      simp only [List.length_take, List.length_replicate]
      omega
    simp [readFrameInto, readExact_short hlen]
  · have hsplit : f.bytes.take n = f.header.encode.1 ++ f.payload.take (n - headerLen) := by
      rw [Frame.bytes, List.take_append, f.header.encode_length,
        List.take_of_length_le (by rw [f.header.encode_length]; omega)]
    have hhead : readExact (f.bytes.take n) (List.replicate headerLen 0) =
        (true, f.payload.take (n - headerLen), f.header.encode.1) := by
      rw [hsplit]
      exact readExact_append _ (by rw [List.length_replicate, f.header.encode_length])
    have hdec : FrameHeader.decode f.header.encode = .ok f.header :=
      FrameHeader.decode_encode _ hf.version (by rw [hf.payloadLen]; exact hf.fits)
    have hbody : (f.payload.take (n - headerLen)).length <
        (resize buf f.header.payloadLen.toNat).length := by
      rw [resize_length, hf.payloadLen, List.length_take]
      omega
    simp only [readFrameInto, hhead, ↓reduceIte, hdec, readExact_short hbody]
    simp

end Rsdb
