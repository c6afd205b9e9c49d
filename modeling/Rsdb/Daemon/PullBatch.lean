/-
# The daemon's side of a batch pull, on the wire

`handle_pull_batch` answers with the metadata, streams the files through a
buffered writer, and ends with an eof frame and `PullBatchComplete`; whatever
fails on the way, `handle_request` writes an `Error` response to the same
connection. What the files give is arbitrary (`ReadRun`).

The buffered writer is dropped when the streaming fails, and what it holds back
is lost. That is harmless while the last flush came before a header. After a
flush between a header and its payload the wire ends in a header whose payload
never comes, and the error response is read as that payload. `keepsFraming_iff`
says that this, and an error text too long for a frame, are the only ways the
wire stops being a sequence of whole frames.
-/
import Rsdb.Transfer.Stream

namespace Rsdb

namespace Daemon

/-- What the daemon says when a file cannot be read or has changed. -/
def pullTexts : StreamTexts where
  openContext path := str "failed to open remote path for read: " ++ path.display
  changed expected read path :=
    str "remote file changed during pull: expected " ++ decimal expected ++ str " bytes, read " ++
      decimal read ++ str " from " ++ path.display

/-- `stream_batch_files`. -/
def streamBatchFiles (requestId : UInt32) (files : List (BatchFileSource × ReadRun)) (stream : Bytes) :
    Except AnyhowError ℕ × Bytes := streamThrough requestId pullTexts files stream

/-- The code of a pull that failed. -/
def classifyPullError (err : AnyhowError) : ErrorCode :=
  if err.hasIoErrorKind .notFound then .notFound else .fileTransferFailed

section Handler

variable (json : ControlResponse → Bytes) (requestId : UInt32)

/-- The announcement of the batch. -/
def metadataResponse (manifest : BatchManifest) : ControlResponse :=
  .pullBatchMetadata manifest.roots manifest.entries manifest.totalBytes

/-- The files did not have the sizes that were announced. -/
def sizeMismatch (manifest : BatchManifest) (bytesSent : ℕ) : AnyhowError :=
  .bail (str "pull size mismatch before completion: expected " ++ decimal manifest.totalBytes ++
    str " bytes, streamed " ++ decimal bytesSent)

/-- The announcement, the files, and the end, unless something fails before. -/
def handlePullBatch (manifest : Except AnyhowError BatchManifest) (runs : ℕ → ReadRun) (stream : Bytes) :
    Except AnyhowError Unit × Bytes :=
  match manifest with
  | .error err => (.error err, stream)
  | .ok manifest =>
    match writeJsonFrame stream .response requestId (json (metadataResponse manifest)) with
    | (.error err, stream) => (.error err, stream)
    | (.ok (), stream) =>
      match streamBatchFiles requestId (opened manifest runs) stream with
      | (.error err, stream) => (.error err, stream)
      | (.ok bytesSent, stream) =>
        if bytesSent ≠ manifest.totalBytes then (.error (sizeMismatch manifest bytesSent), stream)
        else
          match writeStreamFrame stream requestId .file true [] with
          | (.error err, stream) => (.error (.ofProtocol err), stream)
          | (.ok (), stream) =>
            writeJsonFrame stream .response requestId
              (json (.pullBatchComplete manifest.entries.length bytesSent))

/-- A failure is answered. -/
def sendError (stream : Bytes) (code : ErrorCode) (err : AnyhowError) : Except AnyhowError Unit × Bytes :=
  writeJsonFrame stream .response requestId (json (.error code err.message))

/-- `handle_request` for a `PullBatch`: what is on the connection when it is done. -/
def pullBatchRequest (manifest : Except AnyhowError BatchManifest) (runs : ℕ → ReadRun) (stream : Bytes) :
    Except AnyhowError Unit × Bytes :=
  match handlePullBatch json requestId manifest runs stream with
  | (.ok (), stream) => (.ok (), stream)
  | (.error err, stream) => sendError json requestId stream (classifyPullError err) err

end Handler

/-! ### What the connection should hold -/

section Framing

variable (json : ControlResponse → Bytes) (requestId : UInt32)

/-- A response of the request in its frame. -/
def responseFrame (response : ControlResponse) : Frame := mkFrame .response 0 requestId (json response)

/-- The response fits a frame. -/
def Fits (response : ControlResponse) : Prop := (json response).length ≤ maxPayloadLen

instance (response : ControlResponse) : Decidable (Fits json response) := by
  unfold Fits; infer_instance

/-- Why the pull fails, if it does, from the manifest and the reads. -/
def pullFailure (manifest : Except AnyhowError BatchManifest) (runs : ℕ → ReadRun) : Option AnyhowError :=
  match manifest with
  | .error err => some err
  | .ok manifest =>
    match streamFailure pullTexts (opened manifest runs) with
    | some err => some err
    | none =>
      let bytesSent := (manifest.files.map BatchFileSource.size).sum
      if bytesSent ≠ manifest.totalBytes then some (sizeMismatch manifest bytesSent)
      else
        let complete := json (.pullBatchComplete manifest.entries.length bytesSent)
        if complete.length > maxPayloadLen then some (.ofProtocol (.payloadTooLarge complete.length))
        else none

/-- The terminal response: `PullBatchComplete` on success, `Error` otherwise. -/
def terminalResponse (manifest : Except AnyhowError BatchManifest) (runs : ℕ → ReadRun) : ControlResponse :=
  match pullFailure json manifest runs, manifest with
  | some err, _ | none, .error err => .error (classifyPullError err) err.message
  | none, .ok manifest =>
    .pullBatchComplete manifest.entries.length (manifest.files.map BatchFileSource.size).sum

/-- The frame of the metadata response, if a manifest was built. -/
def metadataFrames (manifest : Except AnyhowError BatchManifest) : List Frame :=
  match manifest with
  | .error _ => []
  | .ok manifest => [responseFrame json requestId (metadataResponse manifest)]

/-- A response that ends a pull. -/
def IsTerminal (f : Frame) : Prop :=
  f.header.kind = .response ∧
    ((∃ code message, f.payload = json (.error code message)) ∨
      ∃ entries bytes, f.payload = json (.pullBatchComplete entries bytes))

/-- The wire holds whole frames only: the metadata response first if a manifest
was built, the terminal response last, and no terminal response before it. -/
def KeepsFraming (manifest : Except AnyhowError BatchManifest) (terminal : ControlResponse)
    (wire : Bytes) : Prop :=
  ∃ middle : List Frame,
    let before := metadataFrames json requestId manifest ++ middle
    let last := responseFrame json requestId terminal
    (∀ f ∈ before ++ [last], f.Valid) ∧ (∀ f ∈ middle, ¬ IsTerminal json f) ∧
      wire = framesBytes (before ++ [last])

/-! ### What it does hold -/

theorem writeJsonFrame_of_fits {response : ControlResponse} (h : Fits json response) (stream : Bytes) :
    writeJsonFrame stream .response requestId (json response) =
      (.ok (), stream ++ (responseFrame json requestId response).bytes) := writeJsonFrame_of_le h _ _ stream

theorem writeJsonFrame_of_not_fits {response : ControlResponse} (h : ¬ Fits json response) (stream : Bytes) :
    writeJsonFrame stream .response requestId (json response) =
      (.error (.ofProtocol (.payloadTooLarge (json response).length)), stream) := by
  rw [writeJsonFrame, writeFrame,
    writeHeaderAndPayload_of_too_large stream .response 0 requestId (not_le.mp h)]

/-- The connection when only the terminal response is missing. -/
def beforeTerminal (manifest : Except AnyhowError BatchManifest) (runs : ℕ → ReadRun) : Bytes :=
  match manifest with
  | .error _ => []
  | .ok manifest =>
    let stream := (responseFrame json requestId (metadataResponse manifest)).bytes
    match streamBatchFiles requestId (opened manifest runs) stream with
    | (.error _, stream) => stream
    | (.ok bytesSent, stream) =>
      if bytesSent ≠ manifest.totalBytes then stream else stream ++ (eofFrame requestId).bytes

/-- The connection is what comes before the terminal response, and that
response if it fits a frame. -/
theorem pullBatchRequest_snd {manifest : Except AnyhowError BatchManifest} {runs : ℕ → ReadRun}
    (hmeta : ∀ m, manifest = .ok m → Fits json (metadataResponse m)) :
    (pullBatchRequest json requestId manifest runs []).2 =
      beforeTerminal json requestId manifest runs ++
        if Fits json (terminalResponse json manifest runs) then
          (responseFrame json requestId (terminalResponse json manifest runs)).bytes else [] := by
  have hsend : ∀ (stream : Bytes) (err : AnyhowError),
      (sendError json requestId stream (classifyPullError err) err).2 =
        stream ++ if Fits json (.error (classifyPullError err) err.message) then
          (responseFrame json requestId (.error (classifyPullError err) err.message)).bytes else [] := by
    intro stream err
    rw [sendError]
    by_cases hfit : Fits json (.error (classifyPullError err) err.message)
    · rw [writeJsonFrame_of_fits json requestId hfit, if_pos hfit]
    · rw [writeJsonFrame_of_not_fits json requestId hfit, if_neg hfit, List.append_nil]
  cases manifest with
  | error err => exact hsend [] err
  | ok m =>
    have hfst := streamThrough_fst requestId pullTexts (opened m runs)
      (responseFrame json requestId (metadataResponse m)).bytes
    rw [opened_sizes] at hfst
    simp only [pullBatchRequest, handlePullBatch, writeJsonFrame_of_fits json requestId (hmeta m rfl),
      List.nil_append, beforeTerminal, terminalResponse, pullFailure, streamBatchFiles]
    generalize hsb : streamThrough requestId pullTexts (opened m runs)
      (responseFrame json requestId (metadataResponse m)).bytes = sent at hfst ⊢
    obtain ⟨result, stream⟩ := sent
    simp only at hfst
    subst hfst
    cases streamFailure pullTexts (opened m runs) with
    | some err => exact hsend stream err
    | none =>
      simp only
      by_cases hsize : (m.files.map BatchFileSource.size).sum = m.totalBytes
      · simp only [hsize, ne_eq, not_true_eq_false, ↓reduceIte, writeEof]
        by_cases hfit : Fits json (.pullBatchComplete m.entries.length m.totalBytes)
        · have hnot : ¬ (json (.pullBatchComplete m.entries.length m.totalBytes)).length > maxPayloadLen :=
            not_lt.mpr hfit
          simp only [writeJsonFrame_of_fits json requestId hfit, hnot, ↓reduceIte, hsize, hfit]
        · have hlong : (json (.pullBatchComplete m.entries.length m.totalBytes)).length > maxPayloadLen :=
            not_le.mp hfit
          simp only [writeJsonFrame_of_not_fits json requestId hfit, hlong, ↓reduceIte]
          exact hsend _ _
      · simp only [ne_eq, hsize, not_false_eq_true, ↓reduceIte]
        exact hsend _ _

/-- The frames of the reads made. -/
def readFrames (manifest : BatchManifest) (runs : ℕ → ReadRun) : List Frame :=
  (readsMade (opened manifest runs)).map (chunkFrame requestId)

theorem readFrames_valid (manifest : BatchManifest) (runs : ℕ → ReadRun) :
    ∀ f ∈ readFrames requestId manifest runs, f.Valid ∧ f.header.kind = .stream ∧ 0 < f.payload.length := by
  intro f hf
  obtain ⟨c, hc, rfl⟩ := List.mem_map.mp hf
  have hsize := readsMade_sizes _ c hc
  exact ⟨mkFrame_valid (chunk_le_max hsize.2), rfl, hsize.1⟩

theorem not_isTerminal_of_stream {f : Frame} (h : f.header.kind = .stream) : ¬ IsTerminal json f :=
  fun ht => by cases h.symm.trans ht.1

theorem responseFrame_valid {response : ControlResponse} :
    (responseFrame json requestId response).Valid ↔ Fits json response :=
  ⟨fun h => h.fits, mkFrame_valid⟩

/-- Every file steady: all frames are on the wire. -/
theorem streamBatchFiles_of_steady {manifest : BatchManifest} {runs : ℕ → ReadRun}
    (h : streamFailure pullTexts (opened manifest runs) = none) (start : Bytes) :
    streamBatchFiles requestId (opened manifest runs) start =
      (.ok (manifest.files.map BatchFileSource.size).sum,
        start ++ framesBytes (readFrames requestId manifest runs)) := by
  rw [← opened_sizes manifest runs]
  exact streamThrough_of_steady requestId pullTexts h start

/-- The metadata response was not followed by a cut frame. -/
def Uncut (manifest : Except AnyhowError BatchManifest) (runs : ℕ → ReadRun) : Prop :=
  ∀ m, manifest = .ok m → streamFailure pullTexts (opened m runs) ≠ none →
    splits ((readsMade (opened m runs)).map List.length) = false

/-- Before the terminal response there are whole stream frames. -/
theorem beforeTerminal_of_uncut {manifest : Except AnyhowError BatchManifest} {runs : ℕ → ReadRun}
    (h : Uncut manifest runs) :
    ∃ streams : List Frame, (∀ f ∈ streams, f.Valid ∧ f.header.kind = .stream) ∧
      beforeTerminal json requestId manifest runs =
        framesBytes (metadataFrames json requestId manifest ++ streams) := by
  cases manifest with
  | error err => exact ⟨[], by simp, rfl⟩
  | ok m =>
    have hvalid := readFrames_valid requestId m runs
    simp only [beforeTerminal, metadataFrames, framesBytes_append, framesBytes_cons, framesBytes_nil,
      List.append_nil]
    cases hf : streamFailure pullTexts (opened m runs) with
    | some err =>
      obtain ⟨fs, hpre, hinner⟩ := (sent_readsMade requestId (opened m runs)
        (responseFrame json requestId (metadataResponse m)).bytes).whole (h m rfl (by simp [hf]))
      refine ⟨fs, fun f hf => ⟨(hvalid f (hpre.subset hf)).1, (hvalid f (hpre.subset hf)).2.1⟩, ?_⟩
      rw [streamBatchFiles, streamThrough_of_failure requestId pullTexts hf, hinner]
    | none =>
      rw [streamBatchFiles_of_steady requestId hf]
      by_cases hsize : (m.files.map BatchFileSource.size).sum = m.totalBytes
      · refine ⟨readFrames requestId m runs ++ [eofFrame requestId], fun f hf => ?_, ?_⟩
        · rcases List.mem_append.mp hf with hf | hf
          · exact ⟨(hvalid f hf).1, (hvalid f hf).2.1⟩
          · rw [List.mem_singleton.mp hf]
            exact ⟨eofFrame_valid requestId, rfl⟩
        · simp [hsize, framesBytes_append, framesBytes_cons]
      · exact ⟨readFrames requestId m runs, fun f hf => ⟨(hvalid f hf).1, (hvalid f hf).2.1⟩,
          by simp [hsize]⟩

/-- A cut frame leaves its header behind, and what comes before the terminal
response is not a list of whole frames. -/
theorem beforeTerminal_of_cut {m : BatchManifest} {runs : ℕ → ReadRun}
    (hmeta : Fits json (metadataResponse m)) (hf : streamFailure pullTexts (opened m runs) ≠ none)
    (hcut : splits ((readsMade (opened m runs)).map List.length) = true) {frames : List Frame}
    (hframes : ∀ f ∈ frames, f.Valid) : beforeTerminal json requestId (.ok m) runs ≠ framesBytes frames := by
  obtain ⟨err, herr⟩ := Option.ne_none_iff_exists'.mp hf
  set head := responseFrame json requestId (metadataResponse m)
  have hvalid := readFrames_valid requestId m runs
  obtain ⟨fs, f, hpre, hinner⟩ := (sent_readsMade requestId (opened m runs) head.bytes).cut hcut
  have hfmem : f ∈ readFrames requestId m runs := hpre.subset (by simp)
  have hfs : ∀ g ∈ head :: fs, g.Valid := by
    intro g hg
    rcases List.mem_cons.mp hg with rfl | hg
    · exact (responseFrame_valid json requestId).mpr hmeta
    · exact (hvalid g (hpre.subset (List.mem_append_left _ hg))).1
  intro heq
  simp only [beforeTerminal, streamBatchFiles, streamThrough_of_failure requestId pullTexts herr] at heq
  rw [hinner, ← framesBytes_cons] at heq
  obtain ⟨gs, rfl, hgs⟩ := framesBytes_cancel hfs hframes heq
  exact header_ne_framesBytes (hvalid f hfmem).1 (hvalid f hfmem).2.2
    (fun g hg => hframes g (List.mem_append_right _ hg)) hgs

theorem not_keepsFraming_of_cut {m : BatchManifest} {runs : ℕ → ReadRun}
    (hmeta : Fits json (metadataResponse m)) (hf : streamFailure pullTexts (opened m runs) ≠ none)
    (hcut : splits ((readsMade (opened m runs)).map List.length) = true) :
    ¬ KeepsFraming json requestId (.ok m) (terminalResponse json (.ok m) runs)
      (pullBatchRequest json requestId (.ok m) runs []).2 := by
  rintro ⟨middle, hvalid, -, hwire⟩
  have hfits : Fits json (terminalResponse json (.ok m) runs) :=
    (responseFrame_valid json requestId).mp (hvalid _ (by simp))
  rw [pullBatchRequest_snd json requestId (by rintro _ ⟨⟩; exact hmeta), if_pos hfits, framesBytes_append,
    framesBytes_cons, framesBytes_nil, List.append_nil] at hwire
  exact beforeTerminal_of_cut json requestId hmeta hf hcut
    (fun f hf => hvalid f (List.mem_append_left _ hf)) (List.append_cancel_right hwire)

/-- **A batch pull keeps the wire framed exactly when** the terminal response
fits a frame and, if some file fails, the last flush did not come between a
header and its payload. -/
theorem pull_batch_keeps_framing_iff (manifest : Except AnyhowError BatchManifest) (runs : ℕ → ReadRun)
    (hmeta : ∀ m, manifest = .ok m → Fits json (metadataResponse m)) :
    KeepsFraming json requestId manifest (terminalResponse json manifest runs)
        (pullBatchRequest json requestId manifest runs []).2 ↔
      Fits json (terminalResponse json manifest runs) ∧ Uncut manifest runs := by
  constructor
  · intro h
    have hfits : Fits json (terminalResponse json manifest runs) := by
      obtain ⟨middle, hvalid, -, -⟩ := h
      exact (responseFrame_valid json requestId).mp (hvalid _ (by simp))
    refine ⟨hfits, fun m hm hfail => ?_⟩
    subst hm
    by_contra hcut
    exact not_keepsFraming_of_cut json requestId (hmeta m rfl) hfail (by simpa using hcut) h
  · rintro ⟨hfits, huncut⟩
    obtain ⟨streams, hstreams, hbefore⟩ := beforeTerminal_of_uncut json requestId huncut
    refine ⟨streams, fun f hf => ?_, fun f hf => not_isTerminal_of_stream json (hstreams f hf).2, ?_⟩
    · rcases List.mem_append.mp hf with hf | hf
      · rcases List.mem_append.mp hf with hf | hf
        · cases manifest with
          | error err => cases hf
          | ok m =>
            rw [List.mem_singleton.mp hf]
            exact (responseFrame_valid json requestId).mpr (hmeta m rfl)
        · exact (hstreams f hf).1
      · rw [List.mem_singleton.mp hf]
        exact (responseFrame_valid json requestId).mpr hfits
    · rw [pullBatchRequest_snd json requestId hmeta, if_pos hfits, hbefore, framesBytes_append _ [_],
        framesBytes_cons, framesBytes_nil, List.append_nil]

end Framing

/-- A file read to its end in one read. -/
def oneRead (n : ℕ) (h : 0 < n ∧ n ≤ defaultStreamChunkSize) : ReadRun where
  opened := .ok ()
  chunks := [List.replicate n 0]
  ending := .ok ()
  sizes := by simpa using h

/-- A directory with a file of 100 bytes and one listed with 200000. -/
def twoFiles : BatchManifest where
  roots := [⟨str "d", .directory, 493⟩]
  entries := [⟨0, [], .directory, 493, 0⟩, ⟨0, str "a", .file, 420, 100⟩, ⟨0, str "b", .file, 420, 200000⟩]
  files := [⟨Path.ofStr (str "/d/a"), 100⟩, ⟨Path.ofStr (str "/d/b"), 200000⟩]
  totalBytes := 200100

/-- The second file ends after one full read. -/
def shrunk (i : ℕ) : ReadRun := if i = 0 then oneRead 100 (by decide) else oneRead 65536 (by decide)

theorem opened_twoFiles : opened twoFiles shrunk =
    [(⟨Path.ofStr (str "/d/a"), 100⟩, oneRead 100 (by decide)),
      (⟨Path.ofStr (str "/d/b"), 200000⟩, oneRead 65536 (by decide))] := rfl

theorem readsMade_two (p q : Path) {n m k : ℕ} (hn : 0 < n ∧ n ≤ defaultStreamChunkSize)
    (hm : 0 < m ∧ m ≤ defaultStreamChunkSize) :
    (readsMade [(⟨p, n⟩, oneRead n hn), (⟨q, k⟩, oneRead m hm)]).map List.length = [n, m] := by
  by_cases h : m = k <;> simp [readsMade, oneRead, ReadRun.content, h]

/-- The second file has vanished. -/
def vanished (i : ℕ) : ReadRun :=
  if i = 0 then oneRead 100 (by decide)
  else ⟨.error ⟨.notFound, str "No such file or directory (os error 2)"⟩, [], .ok (), by simp⟩

/-- A file that has vanished is reported in a frame of its own. -/
theorem pull_batch_keeps_framing_vanished :
    KeepsFraming ControlResponse.json 7 (.ok twoFiles)
      (terminalResponse ControlResponse.json (.ok twoFiles) vanished)
      (pullBatchRequest ControlResponse.json 7 (.ok twoFiles) vanished []).2 := by
  refine (pull_batch_keeps_framing_iff ControlResponse.json 7 _ _ ?_).mpr ⟨by decide +kernel, ?_⟩
  · rintro m ⟨⟩
    decide +kernel
  · rintro m ⟨⟩ -
    decide +kernel

/-- After the 100 bytes, a full read does not fit the buffer behind its header;
the file then turns out short, and the header has left without its payload. -/
theorem pull_batch_loses_framing :
    Fits ControlResponse.json (metadataResponse twoFiles) ∧
      ¬ KeepsFraming ControlResponse.json 7 (.ok twoFiles)
        (terminalResponse ControlResponse.json (.ok twoFiles) shrunk)
        (pullBatchRequest ControlResponse.json 7 (.ok twoFiles) shrunk []).2 := by
  have hfit : Fits ControlResponse.json (metadataResponse twoFiles) := by decide +kernel
  refine ⟨hfit, not_keepsFraming_of_cut ControlResponse.json 7 hfit ?_ ?_⟩
  · rw [ne_eq, streamFailure_eq_none, opened_twoFiles]
    intro h
    have hb := (h _ (List.mem_cons_of_mem _ List.mem_cons_self)).2.2
    simp only [oneRead, ReadRun.content, List.flatten_cons, List.flatten_nil, List.append_nil,
      List.length_replicate] at hb
    omega
  · rw [opened_twoFiles, readsMade_two]
    decide

end Daemon

end Rsdb
