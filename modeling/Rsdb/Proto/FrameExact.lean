/-
# Which headers are accepted, and what a frame takes off a stream

`FrameHeader::decode` accepts 24 bytes exactly when the magic, the version, the kind
and the length are right (`decode_isOk_iff`). The header it gives has the values of
the five fields (`FrameHeader.ReadFrom`), so writing it gives their bytes again
(`ReadFrom.encode_take`); the last four bytes are not looked at.

`read_frame_into` is taken here on a reader that is polled, which may fail between
any two pieces. A frame that is read takes its header and its payload off the
reader, a header that is rejected takes itself only, and the payload buffer is as
the caller left it or has the length a header of those gave (`frame_header_exact`).
Where the 24 bytes come they are judged, and with its payload an accepted header is read.
On a reader that only gives pieces this is `readFrameInto` on their bytes
(`readFrameIntoFrom_eq`).
-/
import Rsdb.Lib.PolledStream
import Rsdb.Proto.Frame

namespace Rsdb

/-! ### The fields -/

theorem slice_length {bytes : Bytes} {lo hi : ℕ} (h : hi ≤ bytes.length) : (slice bytes lo hi).length = hi - lo := by
  rw [slice, List.length_take, List.length_drop]
  omega

/-- Two slices that meet are one. -/
theorem slice_append (bytes : Bytes) {lo mid hi : ℕ} (hlo : lo ≤ mid) (hhi : mid ≤ hi) :
    slice bytes lo mid ++ slice bytes mid hi = slice bytes lo hi := by
  have hlen : hi - lo = (mid - lo) + (hi - mid) := by omega
  have hdrop : mid = lo + (mid - lo) := by omega
  rw [slice, slice, slice, hlen, List.take_add, List.drop_drop, ← hdrop]

theorem ofNat_leNat_u16 {bytes : Bytes} (h : bytes.length = 2) {v : UInt16} :
    UInt16.ofNat (leNat bytes) = v ↔ leNat bytes = v.toNat := by
  have hlt : leNat bytes < 2 ^ 16 := by simpa [h] using leNat_lt bytes
  rw [← UInt16.toNat_inj, UInt16.toNat_ofNat_of_lt' hlt]

theorem ofNat_leNat_u32 {bytes : Bytes} (h : bytes.length = 4) {v : UInt32} :
    UInt32.ofNat (leNat bytes) = v ↔ leNat bytes = v.toNat := by
  have hlt : leNat bytes < 2 ^ 32 := by simpa [h] using leNat_lt bytes
  rw [← UInt32.toNat_inj, UInt32.toNat_ofNat_of_lt' hlt]

theorem FrameKind.fromU16_eq_ok {value : UInt16} {kind : FrameKind} : fromU16 value = .ok kind ↔ value = kind.toU16 := by
  constructor
  · intro h
    unfold fromU16 at h
    repeat' split at h
    all_goals
      cases h
      try assumption
  · rintro rfl
    exact fromU16_toU16 kind

theorem FrameKind.fromU16_eq_error {value : UInt16} {err : ProtocolError} (h : fromU16 value = .error err) :
    err = .unknownFrameKind value := by
  unfold fromU16 at h
  repeat' split at h
  all_goals cases h
  rfl

/-! ### The header -/

namespace HeaderBytes

theorem slice_length (b : HeaderBytes) (lo hi : ℕ) (h : hi ≤ headerLen) : (slice b.1 lo hi).length = hi - lo :=
  Rsdb.slice_length (by rw [b.2]; exact h)

/-- What a header has to be, field by field. -/
structure Acceptable (b : HeaderBytes) : Prop where
  startsWithMagic : slice b.1 0 4 = magic
  version : leNat (slice b.1 4 6) = protocolVersion.toNat
  kind : ∃ kind : FrameKind, leNat (slice b.1 6 8) = kind.toU16.toNat
  payloadLen : leNat (slice b.1 16 20) ≤ maxPayloadLen

end HeaderBytes

namespace FrameHeader

/-- The bytes start with the magic, and the header has the values of the fields. -/
structure ReadFrom (h : FrameHeader) (b : HeaderBytes) : Prop where
  startsWithMagic : slice b.1 0 4 = magic
  version : leNat (slice b.1 4 6) = h.version.toNat
  kind : leNat (slice b.1 6 8) = h.kind.toU16.toNat
  flags : leNat (slice b.1 8 12) = h.flags.toNat
  requestId : leNat (slice b.1 12 16) = h.requestId.toNat
  payloadLen : leNat (slice b.1 16 20) = h.payloadLen.toNat

theorem decode_eq_ok {b : HeaderBytes} {h : FrameHeader} :
    decode b = .ok h ↔ h.ReadFrom b ∧ h.version = protocolVersion ∧ h.payloadLen.toNat ≤ maxPayloadLen := by
  have hversion := ofNat_leNat_u16 (v := h.version) (b.slice_length 4 6 (by decide))
  have hkind := ofNat_leNat_u16 (v := h.kind.toU16) (b.slice_length 6 8 (by decide))
  have hflags := ofNat_leNat_u32 (v := h.flags) (b.slice_length 8 12 (by decide))
  have hid := ofNat_leNat_u32 (v := h.requestId) (b.slice_length 12 16 (by decide))
  have hlen := ofNat_leNat_u32 (v := h.payloadLen) (b.slice_length 16 20 (by decide))
  constructor
  · intro hdec
    unfold decode at hdec
    split at hdec
    · cases hdec
    · rename_i hmagic
      simp only at hdec
      split at hdec
      · cases hdec
      · rename_i kind hfrom
        split at hdec
        · cases hdec
        · rename_i hv
          split at hdec
          · cases hdec
          · rename_i hl
            obtain rfl := Except.ok.inj hdec
            exact ⟨⟨not_not.mp hmagic, hversion.mp rfl, hkind.mp (FrameKind.fromU16_eq_ok.mp hfrom), hflags.mp rfl,
              hid.mp rfl, hlen.mp rfl⟩, not_not.mp hv, not_lt.mp hl⟩
  · rintro ⟨hread, hv, hl⟩
    unfold decode
    rw [if_neg (not_not.mpr hread.startsWithMagic)]
    simp only [hversion.mpr hread.version, hkind.mpr hread.kind, hflags.mpr hread.flags, hid.mpr hread.requestId,
      hlen.mpr hread.payloadLen, FrameKind.fromU16_toU16]
    rw [if_neg (not_not.mpr hv), if_neg (not_lt.mpr hl)]

/-- Accepted is what has the right magic, version, kind and length. -/
theorem decode_isOk_iff (b : HeaderBytes) : (∃ h, decode b = .ok h) ↔ b.Acceptable := by
  constructor
  · rintro ⟨h, hdec⟩
    obtain ⟨hread, hv, hl⟩ := decode_eq_ok.mp hdec
    exact ⟨hread.startsWithMagic, hv ▸ hread.version, ⟨h.kind, hread.kind⟩, hread.payloadLen ▸ hl⟩
  · rintro ⟨hmagic, hversion, ⟨kind, hkind⟩, hlen⟩
    have hflags := (ofNat_leNat_u32 (b.slice_length 8 12 (by decide))).mp rfl
    have hid := (ofNat_leNat_u32 (b.slice_length 12 16 (by decide))).mp rfl
    have hpayload := (ofNat_leNat_u32 (b.slice_length 16 20 (by decide))).mp rfl
    exact ⟨⟨protocolVersion, kind, _, _, _⟩,
      decode_eq_ok.mpr ⟨⟨hmagic, hversion, hkind, hflags, hid, hpayload⟩, rfl, hpayload ▸ hlen⟩⟩

/-- The fields, written again, are the bytes they were read from. -/
theorem ReadFrom.encode_take {h : FrameHeader} {b : HeaderBytes} (hread : h.ReadFrom b) :
    h.encode.1.take 20 = b.1.take 20 := by
  have hfield : ∀ lo hi : ℕ, hi ≤ headerLen → leBytes (hi - lo) (leNat (slice b.1 lo hi)) = slice b.1 lo hi := by
    intro lo hi hhi
    rw [← b.slice_length lo hi hhi, leBytes_leNat]
  have hversion := hfield 4 6 (by decide)
  have hkind := hfield 6 8 (by decide)
  have hflags := hfield 8 12 (by decide)
  have hid := hfield 12 16 (by decide)
  have hlen := hfield 16 20 (by decide)
  calc h.encode.1.take 20
      = magic ++ leBytes 2 h.version.toNat ++ leBytes 2 h.kind.toU16.toNat ++ leBytes 4 h.flags.toNat ++
          leBytes 4 h.requestId.toNat ++ leBytes 4 h.payloadLen.toNat := rfl
    _ = slice b.1 0 4 ++ slice b.1 4 6 ++ slice b.1 6 8 ++ slice b.1 8 12 ++ slice b.1 12 16 ++ slice b.1 16 20 := by
        rw [hread.startsWithMagic, ← hread.version, ← hread.kind, ← hread.flags, ← hread.requestId, ← hread.payloadLen,
          hversion, hkind, hflags, hid, hlen]
    _ = slice b.1 0 20 := by
        rw [slice_append b.1 (by decide) (by decide), slice_append b.1 (by decide) (by decide),
          slice_append b.1 (by decide) (by decide), slice_append b.1 (by decide) (by decide),
          slice_append b.1 (by decide) (by decide)]
    _ = b.1.take 20 := rfl

/-- A header is rejected for what it says. -/
theorem decode_ne_io (b : HeaderBytes) (kind : IoErrorKind) : decode b ≠ .error (.io kind) := by
  intro h
  unfold decode at h
  split at h
  · cases h
  · simp only at h
    split at h
    · rename_i err hkind
      rw [FrameKind.fromU16_eq_error hkind] at h
      cases h
    · split at h
      · cases h
      · split at h <;> cases h

end FrameHeader

/-! ### A frame off a reader -/

/-- `read_frame_into` on a reader: the result, what is to come, and the payload
buffer. -/
def readFrameIntoFrom (reader : Polls) (payload : Bytes) : Except ProtocolError FrameHeader × Polls × Bytes :=
  let head := readExactFrom reader (List.replicate headerLen 0)
  match head.1 with
  | .error err => (.error (.io err), head.2.1, payload)
  | .ok () =>
    match FrameHeader.decode ⟨head.2.2, by simp [head]⟩ with
    | .error err => (.error err, head.2.1, payload)
    | .ok header =>
      let body := readExactFrom head.2.1 (resize payload header.payloadLen.toNat)
      match body.1 with
      | .error err => (.error (.io err), body.2)
      | .ok () => (.ok header, body.2)

/-- What a call does, by how far it comes. -/
inductive FrameOutcome (reader : Polls) (payload : Bytes) : Except ProtocolError FrameHeader × Polls × Bytes → Prop
  /-- The header does not come whole. -/
  | cutHeader (err : IoErrorKind) (rest : Polls) : FrameOutcome reader payload (.error (.io err), rest, payload)
  | rejected (b : HeaderBytes) (err : ProtocolError) (rest : Polls) (hdec : FrameHeader.decode b = .error err)
      (hbytes : reader.bytes = b.1 ++ rest.bytes) : FrameOutcome reader payload (.error err, rest, payload)
  /-- The payload does not come whole. -/
  | cutPayload (b : HeaderBytes) (header : FrameHeader) (err : IoErrorKind) (rest : Polls) (buf : Bytes)
      (hdec : FrameHeader.decode b = .ok header) (hlen : buf.length = header.payloadLen.toNat) :
      FrameOutcome reader payload (.error (.io err), rest, buf)
  | whole (b : HeaderBytes) (header : FrameHeader) (rest : Polls) (buf : Bytes)
      (hdec : FrameHeader.decode b = .ok header) (hlen : buf.length = header.payloadLen.toNat)
      (hbytes : reader.bytes = b.1 ++ buf ++ rest.bytes) : FrameOutcome reader payload (.ok header, rest, buf)

theorem readFrameIntoFrom_read (reader : Polls) (payload : Bytes) :
    FrameOutcome reader payload (readFrameIntoFrom reader payload) := by
  unfold readFrameIntoFrom
  simp only
  split
  · exact .cutHeader _ _
  · rename_i hhead
    have hbytes := readExactFrom_of_ok hhead
    split
    · rename_i err hdec
      exact .rejected _ err _ hdec hbytes
    · rename_i header hdec
      set body := readExactFrom (readExactFrom reader (List.replicate headerLen 0)).2.1
        (resize payload header.payloadLen.toNat) with hbody
      have hlen : body.2.2.length = header.payloadLen.toNat := by rw [hbody, readExactFrom_length, resize_length]
      split
      · exact .cutPayload _ header _ _ _ hdec hlen
      · rename_i hfull
        have hall : reader.bytes = (readExactFrom reader (List.replicate headerLen 0)).2.2 ++ body.2.2 ++
            body.2.1.bytes := by
          rw [List.append_assoc, ← readExactFrom_of_ok hfull, ← hbytes]
        exact .whole _ header body.2.1 body.2.2 hdec hlen hall

/-- On a reader that gives pieces only, the bytes decide. -/
theorem readFrameIntoFrom_eq {reader : Polls} (h : reader.Pieces) (payload : Bytes) :
    (readFrameIntoFrom reader payload).1 = (readFrameInto reader.bytes payload).1 ∧
      (readFrameIntoFrom reader payload).2.1.bytes = (readFrameInto reader.bytes payload).2.1 ∧
      (readFrameIntoFrom reader payload).2.2 = (readFrameInto reader.bytes payload).2.2 := by
  obtain ⟨hok, hpieces, hrest, hbuf⟩ := readExactFrom_eq_readExact h (List.replicate headerLen 0)
  unfold readFrameIntoFrom readFrameInto
  simp only
  by_cases hhead : (readExact reader.bytes (List.replicate headerLen 0)).1 = true
  · rw [if_pos hhead] at hok ⊢
    simp only [hok, hbuf]
    cases hdec : FrameHeader.decode ⟨(readExact reader.bytes (List.replicate headerLen 0)).2.2, by simp⟩ with
    | error err => exact ⟨rfl, hrest, rfl⟩
    | ok header =>
      obtain ⟨hok', -, hrest', hbuf'⟩ := readExactFrom_eq_readExact hpieces (resize payload header.payloadLen.toNat)
      rw [hrest] at hok' hrest' hbuf'
      simp only
      by_cases hbody : (readExact (readExact reader.bytes (List.replicate headerLen 0)).2.1
          (resize payload header.payloadLen.toNat)).1 = true
      · rw [if_pos hbody] at hok' ⊢
        simp only [hok', hrest', hbuf', and_self]
      · rw [if_neg hbody] at hok' ⊢
        simp only [hok', hrest', hbuf', and_self]
  · rw [if_neg hhead] at hok ⊢
    simp only [hok, hrest, and_self]

/-- A header that is not accepted is rejected, with what comes after it left on the
reader. -/
theorem readFrameIntoFrom_rejects {front : Polls} (h : front.Pieces) (tail : Polls) (payload : Bytes) {taken : HeaderBytes}
    {rest : Bytes} (hbytes : front.bytes = taken.1 ++ rest) (hacc : ¬ taken.Acceptable) :
    ∃ err left, FrameHeader.decode taken = .error err ∧ Polls.bytes left = rest ∧
      readFrameIntoFrom (front ++ tail) payload = (.error err, left ++ tail, payload) := by
  have hlen : (List.replicate headerLen (0 : UInt8)).length = taken.1.length := by
    rw [List.length_replicate, taken.2]
  obtain ⟨left, -, hleft, hread⟩ := readExactFrom_append h tail hlen hbytes
  cases hdec : FrameHeader.decode taken with
  | ok header => exact absurd ((FrameHeader.decode_isOk_iff taken).mp ⟨header, hdec⟩) hacc
  | error err =>
    refine ⟨err, left, rfl, hleft, ?_⟩
    unfold readFrameIntoFrom
    simp only [hread, hdec]

/-- A header that is accepted is read together with its payload. -/
theorem readFrameIntoFrom_accepts {front : Polls} (h : front.Pieces) (tail : Polls) (payload : Bytes) {taken : HeaderBytes}
    {header : FrameHeader} {body rest : Bytes} (hdec : FrameHeader.decode taken = .ok header)
    (hbody : body.length = header.payloadLen.toNat) (hbytes : front.bytes = taken.1 ++ body ++ rest) :
    ∃ left, Polls.bytes left = rest ∧ readFrameIntoFrom (front ++ tail) payload = (.ok header, left ++ tail, body) := by
  have hlen : (List.replicate headerLen (0 : UInt8)).length = taken.1.length := by
    rw [List.length_replicate, taken.2]
  rw [List.append_assoc] at hbytes
  obtain ⟨middle, hpieces, hmiddle, hread⟩ := readExactFrom_append h tail hlen hbytes
  have hresized : (resize payload header.payloadLen.toNat).length = body.length := by rw [resize_length, hbody]
  obtain ⟨left, -, hleft, hreadBody⟩ := readExactFrom_append hpieces tail hresized hmiddle
  refine ⟨left, hleft, ?_⟩
  unfold readFrameIntoFrom
  simp only [hread, hdec, hreadBody]

/-- **A header is accepted for exactly what it is, and a frame takes exactly what
it is off the reader.** The header that is read gives the first 20 bytes back. A
call that succeeds takes 24 bytes and the payload, one that rejects a header, which
are those that fail with no I/O error, takes 24 bytes, and the buffer is never made
longer than `maxPayloadLen`. Where 24 bytes come that are not acceptable they are
rejected, and where an acceptable header comes with its payload both are read,
however the bytes are cut into pieces and whatever is polled after them. -/
theorem frame_header_exact :
    (∀ b : HeaderBytes, ((∃ header, FrameHeader.decode b = .ok header) ↔ b.Acceptable) ∧
      ∀ header, FrameHeader.decode b = .ok header → header.encode.1.take 20 = b.1.take 20) ∧
    ∀ (reader : Polls) (payload : Bytes),
      (∀ header rest buf, readFrameIntoFrom reader payload = (.ok header, rest, buf) →
        ∃ taken : HeaderBytes, FrameHeader.decode taken = .ok header ∧ buf.length = header.payloadLen.toNat ∧
          reader.bytes = taken.1 ++ buf ++ rest.bytes) ∧
      (∀ err rest buf, readFrameIntoFrom reader payload = (.error err, rest, buf) →
        ((∀ kind, err ≠ .io kind) ↔ ∃ taken : HeaderBytes, ¬ taken.Acceptable ∧ FrameHeader.decode taken = .error err ∧
          reader.bytes = taken.1 ++ rest.bytes)) ∧
      ((readFrameIntoFrom reader payload).2.2 = payload ∨
        (readFrameIntoFrom reader payload).2.2.length ≤ maxPayloadLen) ∧
      ∀ (front tail : Polls) (taken : HeaderBytes), reader = front ++ tail → front.Pieces →
        (∀ rest, ¬ taken.Acceptable → front.bytes = taken.1 ++ rest →
          ∃ err left, FrameHeader.decode taken = .error err ∧ Polls.bytes left = rest ∧
            readFrameIntoFrom reader payload = (.error err, left ++ tail, payload)) ∧
        ∀ header body rest, FrameHeader.decode taken = .ok header → body.length = header.payloadLen.toNat →
          front.bytes = taken.1 ++ body ++ rest →
            ∃ left, Polls.bytes left = rest ∧ readFrameIntoFrom reader payload = (.ok header, left ++ tail, body) := by
  have hfits : ∀ {b : HeaderBytes} {header : FrameHeader}, FrameHeader.decode b = .ok header →
      header.payloadLen.toNat ≤ maxPayloadLen := fun hdec => (FrameHeader.decode_eq_ok.mp hdec).2.2
  refine ⟨fun b => ⟨FrameHeader.decode_isOk_iff b, fun header hdec => ?_⟩, fun reader payload => ⟨?_, ?_, ?_, ?_⟩⟩
  · exact (FrameHeader.decode_eq_ok.mp hdec).1.encode_take
  · intro header rest buf heq
    have hread := readFrameIntoFrom_read reader payload
    rw [heq] at hread
    cases hread with
    | whole b _ _ _ hdec hlen hbytes => exact ⟨b, hdec, hlen, hbytes⟩
  · intro err rest buf heq
    have hread := readFrameIntoFrom_read reader payload
    rw [heq] at hread
    constructor
    · intro hio
      cases hread with
      | cutHeader kind => exact absurd rfl (hio kind)
      | cutPayload _ _ kind => exact absurd rfl (hio kind)
      | rejected b _ _ hdec hbytes =>
        refine ⟨b, fun hacc => ?_, hdec, hbytes⟩
        obtain ⟨header, hok⟩ := (FrameHeader.decode_isOk_iff b).mpr hacc
        rw [hdec] at hok
        cases hok
    · rintro ⟨taken, -, hdec, -⟩ kind rfl
      exact FrameHeader.decode_ne_io taken kind hdec
  · generalize readFrameIntoFrom reader payload = out, readFrameIntoFrom_read reader payload = hread
    cases hread with
    | cutHeader => exact Or.inl rfl
    | rejected => exact Or.inl rfl
    | cutPayload b header _ _ _ hdec hlen => exact Or.inr (hlen ▸ hfits hdec)
    | whole b header _ _ hdec hlen => exact Or.inr (hlen ▸ hfits hdec)
  · rintro front tail taken rfl hpieces
    exact ⟨fun rest hacc hbytes => readFrameIntoFrom_rejects hpieces tail payload hbytes hacc,
      fun header body rest hdec hbody hbytes => readFrameIntoFrom_accepts hpieces tail payload hdec hbody hbytes⟩

end Rsdb
