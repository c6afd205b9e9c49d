/-
# The daemon's side of a single-file pull

`handle_pull` writes the metadata, the file and the completion to a buffered
writer, and returns without a flush: what the writer holds back then is dropped
with it. The last write is the payload of `PullComplete`, which is smaller than
the buffer, so the end of the conversation never leaves it, however long the
file is and however it is read.
-/
import Rsdb.Daemon.PullBatch
import Rsdb.Transfer.Manifest

namespace Rsdb

namespace Daemon

section

variable (json : ControlResponse → Bytes) (requestId : UInt32)

/-- `handle_pull` once the file is open. The byte counter is a `u64`. -/
def pullThrough (size mode : ℕ) (run : ReadRun) (writer : BufWriter Bytes) :
    Except AnyhowError Unit × BufWriter Bytes :=
  match writeJsonFrame writer .response requestId (json (.pullMetadata size mode)) with
  | (.error err, writer) => (.error err, writer)
  | (.ok (), writer) =>
    match sendChunks requestId run.chunks writer with
    | (.error err, writer) => (.error err, writer)
    | (.ok (), writer) =>
      match run.ending with
      | .error err => (.error (.ofIo err), writer)
      | .ok () =>
        match writeStreamFrame writer requestId .file true [] with
        | (.error err, writer) => (.error (.ofProtocol err), writer)
        | (.ok (), writer) =>
          writeJsonFrame writer .response requestId (json (.pullComplete (run.content.length % 2 ^ 64)))

/-- `handle_pull`, for what the stat of the path and the file give; the writer
is dropped on return. -/
def handlePull (path : Str) (fileMeta : Except IoError Metadata) (run : ReadRun) (stream : Bytes) :
    Except AnyhowError Unit × Bytes :=
  match fileMeta with
  | .error err => (.error ((AnyhowError.ofIo err).context (str "failed to stat remote path: " ++ path)), stream)
  | .ok metadata =>
    if metadata.isFile = false then (.error (.bail (str "remote path is not a regular file: " ++ path)), stream)
    else
      match run.opened with
      | .error err =>
        (.error ((AnyhowError.ofIo err).context (str "failed to open remote path for read: " ++ path)), stream)
      | .ok () =>
        let (result, writer) := pullThrough json requestId metadata.size (fileMode metadata.mode) run
          (BufWriter.withCapacity writerCapacity stream)
        (result, writer.inner)

/-! ### What should arrive -/

/-- The metadata, the payloads, the eof frame and the completion. -/
def pullFrames (metadata : Metadata) (payloads : List Bytes) (bytesSent : ℕ) : List Frame :=
  responseFrame json requestId (.pullMetadata metadata.size (fileMode metadata.mode)) ::
    payloads.map (chunkFrame requestId) ++
    [eofFrame requestId, responseFrame json requestId (.pullComplete bytesSent)]

/-- All frames of the conversation but the completion. -/
def beforeComplete (metadata : Metadata) (payloads : List Bytes) : List Frame :=
  responseFrame json requestId (.pullMetadata metadata.size (fileMode metadata.mode)) ::
    payloads.map (chunkFrame requestId) ++ [eofFrame requestId]

/-- The connection holds, after what it held, the metadata, frames with the
bytes of the file, an eof frame, and the completion with their number. -/
def PullDelivered (metadata : Metadata) (content : Bytes) (stream wire : Bytes) : Prop :=
  ∃ payloads : List Bytes, payloads.flatten = content ∧
    (∀ f ∈ pullFrames json requestId metadata payloads content.length, f.Valid) ∧
    wire = stream ++ framesBytes (pullFrames json requestId metadata payloads content.length)

/-- The pull has nothing to fail on: the path is a regular file that opens and
is read to its end, and the responses fit a frame. -/
structure Pullable (fileMeta : Except IoError Metadata) (run : ReadRun) (metadata : Metadata) : Prop where
  stat : fileMeta = .ok metadata
  file : metadata.isFile = true
  opened : run.opened = .ok ()
  ending : run.ending = .ok ()
  metadataFits : Fits json (.pullMetadata metadata.size (fileMode metadata.mode))
  completeFits : Fits json (.pullComplete (run.content.length % 2 ^ 64))

/-! ### What does arrive -/

/-- A writer after a frame. -/
def afterFrame (writer : BufWriter Bytes) (f : Frame) : BufWriter Bytes :=
  writeAll (writeAll writer f.header.encode.1) f.payload

theorem written_afterFrame (writer : BufWriter Bytes) (f : Frame) :
    (afterFrame writer f).written = writer.written ++ f.bytes := by
  rw [afterFrame, BufWriter.written_writeAll, BufWriter.written_writeAll, Frame.bytes, List.append_assoc]

theorem capacity_afterFrame (writer : BufWriter Bytes) (f : Frame) :
    (afterFrame writer f).capacity = writer.capacity := by
  rw [afterFrame, BufWriter.writeAll_capacity, BufWriter.writeAll_capacity]

/-- The payload of the last frame is held back if it is smaller than the buffer. -/
theorem buf_afterFrame_ne_nil {writer : BufWriter Bytes} {f : Frame} (hpos : f.payload ≠ [])
    (hlt : f.payload.length < writer.capacity) : (afterFrame writer f).buf ≠ [] := by
  have hcap : f.payload.length < (writeAll writer f.header.encode.1).capacity := by
    rw [BufWriter.writeAll_capacity]
    exact hlt
  rw [afterFrame, BufWriter.writeAll_small _ hcap]
  split
  · exact hpos
  · exact List.append_ne_nil_of_right_ne_nil _ hpos

theorem afterReads_eq_foldl (reads : List Bytes) (writer : BufWriter Bytes) :
    afterReads requestId reads writer = (reads.map (chunkFrame requestId)).foldl afterFrame writer := by
  rw [afterReads, List.foldl_map]
  rfl

theorem written_foldl_afterFrame : ∀ (frames : List Frame) (writer : BufWriter Bytes),
    (frames.foldl afterFrame writer).written = writer.written ++ framesBytes frames
  | [], writer => by simp
  | f :: fs, writer => by
    rw [List.foldl_cons, written_foldl_afterFrame fs, written_afterFrame, framesBytes_cons, List.append_assoc]

theorem capacity_foldl_afterFrame : ∀ (frames : List Frame) (writer : BufWriter Bytes),
    (frames.foldl afterFrame writer).capacity = writer.capacity
  | [], _ => rfl
  | f :: fs, writer => by rw [List.foldl_cons, capacity_foldl_afterFrame fs, capacity_afterFrame]

theorem writeResponse_eq {response : ControlResponse} (h : Fits json response) (writer : BufWriter Bytes) :
    writeJsonFrame writer .response requestId (json response) =
      (.ok (), afterFrame writer (responseFrame json requestId response)) := by
  rw [writeJsonFrame, writeFrame, writeHeaderAndPayload_of_le writer .response 0 requestId h]
  rfl

theorem writeResponse_of_not_fits {response : ControlResponse} (h : ¬ Fits json response)
    (writer : BufWriter Bytes) :
    writeJsonFrame writer .response requestId (json response) =
      (.error (.ofProtocol (.payloadTooLarge (json response).length)), writer) := by
  rw [writeJsonFrame, writeFrame, writeHeaderAndPayload_of_too_large writer .response 0 requestId (not_le.mp h)]

theorem writeEofFrame_eq (writer : BufWriter Bytes) :
    writeStreamFrame writer requestId .file true [] = (.ok (), afterFrame writer (eofFrame requestId)) := by
  rw [writeStreamFrame, writeHeaderAndPayload_of_le writer .stream _ requestId (by simp)]
  rfl

theorem sendChunks_run (run : ReadRun) (writer : BufWriter Bytes) :
    sendChunks requestId run.chunks writer =
      (.ok (), (run.chunks.map (chunkFrame requestId)).foldl afterFrame writer) := by
  rw [sendChunks_eq requestId run.chunks (fun c hc => (run.sizes c hc).2) writer, afterReads_eq_foldl]

variable {json}

/-- Nothing to fail on: every frame goes to the writer. -/
theorem pullThrough_of_pullable {fileMeta : Except IoError Metadata} {run : ReadRun} {metadata : Metadata}
    (h : Pullable json fileMeta run metadata) (writer : BufWriter Bytes) :
    pullThrough json requestId metadata.size (fileMode metadata.mode) run writer =
      (.ok (), (pullFrames json requestId metadata run.chunks (run.content.length % 2 ^ 64)).foldl afterFrame
        writer) := by
  simp only [pullThrough, writeResponse_eq json requestId h.metadataFits, sendChunks_run, h.ending,
    writeEofFrame_eq, writeResponse_eq json requestId h.completeFits, pullFrames, List.foldl_cons, List.foldl_append,
    List.foldl_nil]

/-- What the end of the pull has to fail on. -/
theorem fits_of_pullThrough_ok {size mode : ℕ} {run : ReadRun} {writer : BufWriter Bytes}
    (h : (pullThrough json requestId size mode run writer).1 = .ok ()) :
    Fits json (.pullMetadata size mode) ∧ run.ending = .ok () ∧
      Fits json (.pullComplete (run.content.length % 2 ^ 64)) := by
  by_cases hmeta : Fits json (.pullMetadata size mode)
  · simp only [pullThrough, writeResponse_eq json requestId hmeta, sendChunks_run] at h
    cases hending : run.ending with
    | error err => simp [hending] at h
    | ok u =>
      refine ⟨hmeta, rfl, by_contra fun hcomplete => ?_⟩
      simp only [hending, writeEofFrame_eq, writeResponse_of_not_fits json requestId hcomplete] at h
      cases h
  · simp [pullThrough, writeResponse_of_not_fits json requestId hmeta] at h

/-- The pull succeeds exactly when it has nothing to fail on. -/
theorem handlePull_ok_iff (path : Str) (fileMeta : Except IoError Metadata) (run : ReadRun) (stream : Bytes) :
    (handlePull json requestId path fileMeta run stream).1 = .ok () ↔ ∃ metadata, Pullable json fileMeta run metadata := by
  constructor
  · intro h
    cases fileMeta with
    | error err => simp [handlePull] at h
    | ok metadata =>
      cases hfile : metadata.isFile with
      | false => simp [handlePull, hfile] at h
      | true =>
        cases hopened : run.opened with
        | error err => simp [handlePull, hfile, hopened] at h
        | ok u =>
          simp only [handlePull, hfile, hopened, Bool.true_eq_false, ↓reduceIte] at h
          obtain ⟨hmeta, hending, hcomplete⟩ := fits_of_pullThrough_ok requestId h
          exact ⟨metadata, rfl, hfile, hopened, hending, hmeta, hcomplete⟩
  · rintro ⟨metadata, h⟩
    have hrun := pullThrough_of_pullable requestId h (BufWriter.withCapacity writerCapacity stream)
    simp only [handlePull, h.stat, h.file, h.opened, Bool.true_eq_false, ↓reduceIte, hrun]

/-! ### What is missing -/

theorem pullFrames_eq_concat (metadata : Metadata) (payloads : List Bytes) (bytesSent : ℕ) :
    pullFrames json requestId metadata payloads bytesSent =
      beforeComplete json requestId metadata payloads ++
        [responseFrame json requestId (.pullComplete bytesSent)] := by
  simp [pullFrames, beforeComplete]

theorem Pullable.frames_valid {fileMeta : Except IoError Metadata} {run : ReadRun} {metadata : Metadata}
    (h : Pullable json fileMeta run metadata) :
    ∀ f ∈ pullFrames json requestId metadata run.chunks (run.content.length % 2 ^ 64), f.Valid := by
  intro f hf
  simp only [pullFrames, List.cons_append, List.mem_cons, List.mem_append, List.mem_map, List.not_mem_nil,
    or_false] at hf
  obtain rfl | ⟨c, hc, rfl⟩ | rfl | rfl := hf
  · exact mkFrame_valid h.metadataFits
  · exact mkFrame_valid (chunk_le_max (run.sizes c hc).2)
  · exact eofFrame_valid requestId
  · exact mkFrame_valid h.completeFits

/-- The conversation ends in its second response. -/
theorem countP_pullFrames (metadata : Metadata) (payloads : List Bytes) (bytesSent : ℕ) :
    (pullFrames json requestId metadata payloads bytesSent).countP (fun f => f.header.kind = .response) = 2 := by
  have hchunks : (payloads.map (chunkFrame requestId)).countP (fun f => f.header.kind = .response) = 0 := by
    rw [List.countP_eq_zero]
    intro f hf
    obtain ⟨c, -, rfl⟩ := List.mem_map.mp hf
    simp [chunkFrame, mkFrame, frameHeader]
  rw [pullFrames, List.cons_append, List.countP_cons, List.countP_append, hchunks]
  rfl

/-- A proper part of the conversation is not a conversation. -/
theorem not_delivered_of_held {metadata : Metadata} {payloads : List Bytes} {bytesSent : ℕ}
    (hvalid : ∀ f ∈ pullFrames json requestId metadata payloads bytesSent, f.Valid) {content stream wire held : Bytes}
    (hheld : held ≠ [])
    (hwritten : wire ++ held = stream ++ framesBytes (pullFrames json requestId metadata payloads bytesSent))
    (metadata' : Metadata) : ¬ PullDelivered json requestId metadata' content stream wire := by
  rintro ⟨payloads', -, hvalid', rfl⟩
  rw [List.append_assoc, List.append_cancel_left_eq] at hwritten
  obtain ⟨rest, hframes, hrest⟩ := framesBytes_cancel hvalid' hvalid hwritten
  have hcount := congrArg (List.countP fun f => decide (f.header.kind = .response)) hframes
  rw [List.countP_append, countP_pullFrames, countP_pullFrames] at hcount
  have hnone : rest.countP (fun f => decide (f.header.kind = .response)) = 0 := by omega
  have hne : rest ≠ [] := by
    rintro rfl
    exact hheld hrest
  have hlast := congrArg List.getLast? hframes
  rw [List.getLast?_append_of_ne_nil _ hne, pullFrames_eq_concat, List.getLast?_concat] at hlast
  have hmem : responseFrame json requestId (.pullComplete bytesSent) ∈ rest := List.mem_of_getLast? hlast.symm
  exact List.countP_eq_zero.mp hnone _ hmem rfl

/-- **A single-file pull never delivers everything.** Whatever the file, however
it is read and whatever the connection held: the pull delivers what it should
when it returns `Ok` only where it does not return `Ok` at all, because the path
is not a regular file, or it fails to open or to read, or a response is too large
for a frame. -/
theorem pull_delivers_iff (hshort : ∀ n < 2 ^ 64, json (.pullComplete n) ≠ [] ∧
    (json (.pullComplete n)).length < writerCapacity) (path : Str) (fileMeta : Except IoError Metadata)
    (run : ReadRun) (stream : Bytes) :
    ((handlePull json requestId path fileMeta run stream).1 = .ok () → ∃ metadata, fileMeta = .ok metadata ∧
      PullDelivered json requestId metadata run.content stream (handlePull json requestId path fileMeta run stream).2) ↔
      ¬ ∃ metadata, Pullable json fileMeta run metadata := by
  rw [handlePull_ok_iff]
  refine ⟨fun h hpull => ?_, fun h hpull => absurd hpull h⟩
  obtain ⟨metadata', -, hdelivered⟩ := h hpull
  obtain ⟨metadata, hpull⟩ := hpull
  set start := BufWriter.withCapacity writerCapacity stream with hstart
  set frames := pullFrames json requestId metadata run.chunks (run.content.length % 2 ^ 64) with hframes
  have hrun := pullThrough_of_pullable requestId hpull start
  rw [← hframes] at hrun
  have hwire : (handlePull json requestId path fileMeta run stream).2 = (frames.foldl afterFrame start).inner := by
    simp only [handlePull, hpull.stat, hpull.file, hpull.opened, Bool.true_eq_false, ↓reduceIte, ← hstart, hrun]
  have hwritten := written_foldl_afterFrame frames start
  have hheld : (frames.foldl afterFrame start).buf ≠ [] := by
    obtain ⟨hpos, hlt⟩ := hshort (run.content.length % 2 ^ 64) (Nat.mod_lt _ (by decide))
    rw [hframes, pullFrames_eq_concat, List.foldl_append]
    exact buf_afterFrame_ne_nil hpos (by rw [capacity_foldl_afterFrame]; exact hlt)
  rw [hwire] at hdelivered
  refine not_delivered_of_held requestId (hpull.frames_valid requestId) hheld ?_ metadata' hdelivered
  rw [hstart, BufWriter.written_withCapacity] at hwritten
  exact hwritten

end

/-! ### A file of two bytes -/

/-- The documented text of a completion is short. -/
theorem json_pullComplete_short : ∀ n < 2 ^ 64, ControlResponse.json (.pullComplete n) ≠ [] ∧
    (ControlResponse.json (.pullComplete n)).length < writerCapacity := by
  intro n hn
  have hkey : (jsonString (str "bytes_sent")).length = 12 := by decide
  have htag : (jsonString (str "type") ++ 58 :: jsonString (str "pull_complete")).length = 22 := by decide
  have hlen : (ControlResponse.json (.pullComplete n)).length = 38 + (decimal n).length := by
    simp only [ControlResponse.json, jsonTagged, jsonObject, List.map, jsonCommas, List.length_append,
      List.length_cons, List.length_nil] at hkey htag ⊢
    omega
  have hdecimal : (decimal n).length ≤ 20 := decimal_length_le (by decide) (lt_trans hn (by decide))
  have hcapacity : 58 < writerCapacity := by decide
  exact ⟨List.ne_nil_of_length_pos (by omega), by omega⟩

/-- A file that is read in two pieces. -/
def twoBytes : ReadRun := ⟨.ok (), [str "h", str "i"], .ok (), by decide⟩

/-- What a look at it says. -/
def twoBytesMeta : Metadata := ⟨.file, 0o644, 2⟩

/-- Nothing of the conversation arrives, though the pull returns `Ok`. -/
theorem pull_delivers_nothing :
    handlePull ControlResponse.json 7 (str "/f") (.ok twoBytesMeta) twoBytes [] = (.ok (), []) ∧
      ¬ PullDelivered ControlResponse.json 7 twoBytesMeta twoBytes.content [] [] := by
  refine ⟨by decide +kernel, ?_⟩
  rintro ⟨payloads, -, -, hwire⟩
  have hlen := congrArg List.length hwire
  simp [pullFrames, framesBytes_cons, Frame.bytes_length, headerLen] at hlen
  omega

theorem pull_delivers_iff_two_bytes :
    ((handlePull ControlResponse.json 7 (str "/f") (.ok twoBytesMeta) twoBytes []).1 = .ok () →
      ∃ metadata, .ok twoBytesMeta = (.ok metadata : Except IoError Metadata) ∧
        PullDelivered ControlResponse.json 7 metadata twoBytes.content []
          (handlePull ControlResponse.json 7 (str "/f") (.ok twoBytesMeta) twoBytes []).2) ↔
      ¬ ∃ metadata, Pullable ControlResponse.json (.ok twoBytesMeta) twoBytes metadata :=
  pull_delivers_iff 7 json_pullComplete_short (str "/f") (.ok twoBytesMeta) twoBytes []

end Daemon

end Rsdb
