/-
# A stream of frames, cut anywhere

Frames written one after the other with `write_frame` or `write_stream_frame`,
the byte stream cut at any point, and `read_frame_into` called again and again
with one payload buffer. The calls give exactly the frames that lie wholly
before the cut, and the next one fails at the end of the stream
(`frame_stream_round_trip`).

The step is one call: at the head of the stream there is either a whole frame
(`readFrameInto_bytes`) or a short one (`readFrameInto_short`). The run
(`readFrames_take`) is the induction over the frames, with the cut counted from
the next frame on.
-/
import Rsdb.Proto.Frame

namespace Rsdb

/-- A frame as a caller hands it to one of the two writers. -/
inductive Outgoing where
  | plain (kind : FrameKind) (requestId : UInt32) (payload : Bytes)
  | stream (requestId : UInt32) (channel : StreamChannel) (eof : Bool) (payload : Bytes)
  deriving DecidableEq

namespace Outgoing

/-- The frame is written by the function for its kind. -/
def write {W : Type} [AsyncWrite W] (writer : W) : Outgoing → Except ProtocolError Unit × W
  | plain kind requestId payload => writeFrame writer kind requestId payload
  | stream requestId channel eof payload => writeStreamFrame writer requestId channel eof payload

/-- The kind its header will have. -/
def kind : Outgoing → FrameKind
  | plain kind _ _ => kind
  | stream .. => .stream

/-- The request it belongs to. -/
def requestId : Outgoing → UInt32
  | plain _ requestId _ => requestId
  | stream requestId _ _ _ => requestId

/-- What it carries. -/
def payload : Outgoing → Bytes
  | plain _ _ payload => payload
  | stream _ _ _ payload => payload

/-- The flags its header will have. -/
def flags : Outgoing → UInt32
  | plain .. => 0
  | stream _ channel eof _ => streamFlags channel eof

/-- The frame as it goes over the wire. -/
def frame (f : Outgoing) : Frame := mkFrame f.kind f.flags f.requestId f.payload

@[simp] theorem frame_payload (f : Outgoing) : f.frame.payload = f.payload := rfl

theorem write_eq {W : Type} [AsyncWrite W] (writer : W) (f : Outgoing) :
    f.write writer = writeHeaderAndPayload writer f.kind f.flags f.requestId f.payload := by
  cases f <;> rfl

theorem write_of_too_large {W : Type} [AsyncWrite W] (writer : W) {f : Outgoing}
    (h : maxPayloadLen < f.payload.length) :
    f.write writer = (.error (.payloadTooLarge f.payload.length), writer) := by
  rw [write_eq, writeHeaderAndPayload_of_too_large _ _ _ _ h]

theorem write_of_le {f : Outgoing} (h : f.payload.length ≤ maxPayloadLen) (sent : Bytes) :
    f.write sent = (.ok (), sent ++ f.frame.bytes) := by
  rw [write_eq, writeHeaderAndPayload_of_le _ _ _ _ h]
  simp [frame, mkFrame, Frame.bytes]

/-- A frame read back: kind, id and payload, and for a stream frame its channel
and its eof bit. -/
def ReadsBack (f : Outgoing) (header : FrameHeader) (payload : Bytes) : Prop :=
  header.kind = f.kind ∧ header.requestId = f.requestId ∧ payload = f.payload ∧
    ∀ requestId channel eof data, f = stream requestId channel eof data →
      decodeStreamFrameHeader header = .ok ⟨requestId, channel, eof⟩

theorem readsBack_frame (f : Outgoing) : f.ReadsBack f.frame.header f.payload := by
  refine ⟨rfl, rfl, rfl, ?_⟩
  rintro requestId channel eof data rfl
  exact decodeStreamFrameHeader_mkFrame requestId channel eof data

end Outgoing

/-- Every frame of the list is written in turn; a refused one leaves the stream as it was. -/
def writeFrames (sent : Bytes) (fs : List Outgoing) : Bytes :=
  fs.foldl (fun sent f => (f.write sent).2) sent

/-- The frames the writers do not refuse. -/
def accepted (fs : List Outgoing) : List Outgoing :=
  fs.filter fun f => f.payload.length ≤ maxPayloadLen

/-- The frames that lie wholly before byte `cut` of the stream. -/
def wholeBefore : ℕ → List Outgoing → List Outgoing
  | _, [] => []
  | cut, f :: fs =>
    if f.frame.bytes.length ≤ cut then f :: wholeBefore (cut - f.frame.bytes.length) fs else []

/-- Up to `n` calls of `read_frame_into` with one payload buffer, until one
fails: what they returned, and the error. -/
def readFrames : ℕ → Bytes → Bytes → List (FrameHeader × Bytes) × Option ProtocolError
  | 0, _, _ => ([], none)
  | n + 1, input, payload =>
    match readFrameInto input payload with
    | (.error err, _) => ([], some err)
    | (.ok header, rest, payload) =>
      ((header, payload) :: (readFrames n rest payload).1, (readFrames n rest payload).2)

/-! ### The bytes written -/

theorem writeFrames_eq : ∀ (fs : List Outgoing) (sent : Bytes),
    writeFrames sent fs = sent ++ (accepted fs).flatMap fun f => f.frame.bytes
  | [], sent => by simp [writeFrames, accepted]
  | f :: fs, sent => by
    have ih := writeFrames_eq fs
    simp only [writeFrames, accepted, List.foldl_cons, List.filter_cons] at ih ⊢
    by_cases h : f.payload.length ≤ maxPayloadLen
    · rw [Outgoing.write_of_le h, ih]
      simp [h]
    · rw [Outgoing.write_of_too_large _ (by omega), ih]
      simp [h]

theorem accepted_le {fs : List Outgoing} : ∀ f ∈ accepted fs, f.payload.length ≤ maxPayloadLen := by
  intro f hf
  simpa using (List.mem_filter.mp hf).2

/-! ### The calls -/

theorem readFrames_take : ∀ (fs : List Outgoing), (∀ f ∈ fs, f.payload.length ≤ maxPayloadLen) →
    ∀ n cut buf, readFrames n ((fs.flatMap fun f => f.frame.bytes).take cut) buf =
      (((wholeBefore cut fs).take n).map fun f => (f.frame.header, f.payload),
        if n ≤ (wholeBefore cut fs).length then none else some (.io .unexpectedEof))
  | [], _, n, cut, buf => by
    cases n with
    | zero => simp [readFrames, wholeBefore]
    | succ n =>
      have hshort : readExact [] (List.replicate headerLen 0) = (false, [], List.replicate headerLen 0) := by
        rw [readExact_short (by decide)]
        rfl
      simp [readFrames, readFrameInto, wholeBefore, hshort]
  | f :: fs, hfs, n, cut, buf => by
    cases n with
    | zero => simp [readFrames]
    | succ n =>
      have hf : f.frame.Valid := mkFrame_valid (hfs f List.mem_cons_self)
      have ih := readFrames_take fs fun g hg => hfs g (List.mem_cons_of_mem _ hg)
      rw [List.flatMap_cons, List.take_append]
      by_cases hcut : f.frame.bytes.length ≤ cut
      · rw [List.take_of_length_le hcut]
        have hcall := readFrameInto_bytes hf
          ((fs.flatMap fun f => f.frame.bytes).take (cut - f.frame.bytes.length)) buf
        simp only [readFrames, hcall, ih, wholeBefore, if_pos hcut]
        simp
      · have hnone : cut - f.frame.bytes.length = 0 := by omega
        have hcall := readFrameInto_short hf (n := cut) (by omega) buf
        rw [hnone, List.take_zero, List.append_nil]
        generalize hr : readFrameInto (f.frame.bytes.take cut) buf = r at hcall
        obtain ⟨r1, r2⟩ := r
        simp only at hcall
        subst hcall
        simp [readFrames, hr, wholeBefore, hcut]

/-- **Frame streams survive the wire, and a cut loses only what it cuts.** `n`
reads of the first `cut` bytes of the stream the writers made return the frames
that lie wholly before the cut, in order; one read more fails at the end of the
stream. A payload over the limit is refused and nothing of it is written. -/
theorem frame_stream_round_trip (fs : List Outgoing) (cut : ℕ) (buf : Bytes) :
    (∀ n, List.Forall₂ (fun r f => f.ReadsBack r.1 r.2)
        (readFrames n ((writeFrames [] fs).take cut) buf).1 ((wholeBefore cut (accepted fs)).take n) ∧
      (readFrames n ((writeFrames [] fs).take cut) buf).2 =
        if n ≤ (wholeBefore cut (accepted fs)).length then none else some (.io .unexpectedEof)) ∧
    ∀ f ∈ fs, f ∉ accepted fs → ∀ sent : Bytes,
      f.write sent = (.error (.payloadTooLarge f.payload.length), sent) := by
  refine ⟨fun n => ?_, fun f hf hna sent => ?_⟩
  · rw [writeFrames_eq, List.nil_append, readFrames_take _ accepted_le]
    refine ⟨?_, rfl⟩
    rw [List.forall₂_map_left_iff, List.forall₂_same]
    exact fun f _ => f.readsBack_frame
  · apply Outgoing.write_of_too_large
    by_contra h
    exact hna (List.mem_filter.mpr ⟨hf, by simpa using h⟩)

end Rsdb
