/-
# Streaming files through a buffered writer

`stream_batch_files` of the daemon and `stream_local_batch_files` of the client
are one loop: each file is opened and read to its end, every read goes out as
one stream frame through a `BufWriter` of one header and one chunk, and a file
that gives another number of bytes than the manifest says ends the loop with an
error. The two differ in their request id and their texts (`StreamTexts`).

What a file gives is a `ReadRun`: whether it opens, the reads, and how they end.

A frame is two writes to the buffered writer, so a flush between them can put a
header on the wire without its payload. Whether the last flush did that depends
on the sizes of the reads only (`splits`), and `streamFiles_inner` says what is
on the wire when the loop is left: whole frames, or whole frames and a header.
-/
import Rsdb.Os.Path

namespace Rsdb

/-- What a file gives when it is read: it opens or not, each read gives 1 to
`defaultStreamChunkSize` bytes, and the last one is the end or an error. -/
structure ReadRun where
  opened : Except IoError Unit
  chunks : List Bytes
  ending : Except IoError Unit
  sizes : ∀ c ∈ chunks, 0 < c.length ∧ c.length ≤ defaultStreamChunkSize

/-- The bytes read. -/
def ReadRun.content (run : ReadRun) : Bytes := run.chunks.flatten

/-- The path and the size a manifest lists for a file. -/
structure BatchFileSource where
  path : Path
  size : ℕ
  deriving DecidableEq

/-- What is announced before a batch. -/
structure BatchManifest where
  roots : List TransferRoot
  entries : List TransferEntry
  files : List BatchFileSource
  totalBytes : ℕ
  deriving DecidableEq

/-- The files of a manifest with what each gives when it is opened in turn. -/
def opened (manifest : BatchManifest) (runs : ℕ → ReadRun) : List (BatchFileSource × ReadRun) :=
  manifest.files.mapIdx fun i file => (file, runs i)

/-- What the two streaming loops say about a failure. -/
structure StreamTexts where
  openContext : Path → Str
  changed : ℕ → ℕ → Path → Str

/-- The capacity of the buffered writer: one header and one full chunk. -/
def writerCapacity : ℕ := headerLen + defaultStreamChunkSize

section Loop

variable {W : Type} [AsyncWrite W] (requestId : UInt32) (texts : StreamTexts)

/-- The reads of one file, each as a frame. -/
def sendChunks : List Bytes → BufWriter W → Except AnyhowError Unit × BufWriter W
  | [], writer => (.ok (), writer)
  | chunk :: chunks, writer =>
    match writeStreamFrame writer requestId .file false chunk with
    | (.error err, writer) => (.error (.ofProtocol err), writer)
    | (.ok (), writer) => sendChunks chunks writer

/-- The files in turn; the writer is as it was when the loop was left. -/
def streamFiles : List (BatchFileSource × ReadRun) → ℕ → BufWriter W →
    Except AnyhowError ℕ × BufWriter W
  | [], totalBytes, writer => (.ok totalBytes, writer.flush)
  | (file, run) :: rest, totalBytes, writer =>
    match run.opened with
    | .error err => (.error ((AnyhowError.ofIo err).context (texts.openContext file.path)), writer)
    | .ok () =>
      match sendChunks requestId run.chunks writer with
      | (.error err, writer) => (.error err, writer)
      | (.ok (), writer) =>
        match run.ending with
        | .error err => (.error (.ofIo err), writer)
        | .ok () =>
          let fileBytes := run.content.length
          if fileBytes ≠ file.size then
            (.error (.bail (texts.changed file.size fileBytes file.path)), writer)
          else streamFiles rest (totalBytes + fileBytes) writer

end Loop

/-! ### What the loop does, by its reads -/

theorem opened_sizes (manifest : BatchManifest) (runs : ℕ → ReadRun) :
    ((opened manifest runs).map fun f => f.1.size) = manifest.files.map BatchFileSource.size := by
  have hcomp : ((fun f : BatchFileSource × ReadRun => f.1.size) ∘ fun p : BatchFileSource × ℕ => (p.1, runs p.2)) =
      BatchFileSource.size ∘ Prod.fst := rfl
  rw [opened, List.mapIdx_eq_zipIdx_map, List.map_map, hcomp, ← List.map_map, List.zipIdx_map_fst]

/-- The file is read to its end and is as long as the manifest says. -/
def Steady (f : BatchFileSource × ReadRun) : Prop :=
  f.2.opened = .ok () ∧ f.2.ending = .ok () ∧ f.2.content.length = f.1.size

/-- What the first file that is not steady is reported as. -/
def streamFailure (texts : StreamTexts) : List (BatchFileSource × ReadRun) → Option AnyhowError
  | [] => none
  | (file, run) :: rest =>
    match run.opened with
    | .error err => some ((AnyhowError.ofIo err).context (texts.openContext file.path))
    | .ok () =>
      match run.ending with
      | .error err => some (.ofIo err)
      | .ok () =>
        if run.content.length ≠ file.size then
          some (.bail (texts.changed file.size run.content.length file.path))
        else streamFailure texts rest

theorem streamFailure_eq_none (texts : StreamTexts) : ∀ files : List (BatchFileSource × ReadRun),
    streamFailure texts files = none ↔ ∀ f ∈ files, Steady f
  | [] => by simp [streamFailure]
  | (file, run) :: rest => by
    have hst : Steady (file, run) ↔
        run.opened = .ok () ∧ run.ending = .ok () ∧ run.content.length = file.size := Iff.rfl
    rw [List.forall_mem_cons, hst, streamFailure]
    cases run.opened with
    | error err => simp
    | ok u =>
      cases run.ending with
      | error err => simp
      | ok v =>
        by_cases hsize : run.content.length = file.size
        · simp only [hsize, ne_eq, not_true_eq_false, ↓reduceIte, true_and]
          exact streamFailure_eq_none texts rest
        · simp [hsize]

/-- The reads the loop makes: all of a steady file and on, all of the first
file that is not, if it opens, and no more. -/
def readsMade : List (BatchFileSource × ReadRun) → List Bytes
  | [] => []
  | (file, run) :: rest =>
    match run.opened with
    | .error _ => []
    | .ok () =>
      match run.ending with
      | .error _ => run.chunks
      | .ok () => if run.content.length ≠ file.size then run.chunks else run.chunks ++ readsMade rest

/-- The frame of a read. -/
def chunkFrame (requestId : UInt32) (chunk : Bytes) : Frame :=
  mkFrame .stream (streamFlags .file false) requestId chunk

theorem chunk_le_max {c : Bytes} (h : c.length ≤ defaultStreamChunkSize) : c.length ≤ maxPayloadLen :=
  h.trans (by decide)

/-- A writer after the frame of a read. -/
def afterRead {W : Type} [AsyncWrite W] (requestId : UInt32) (writer : BufWriter W) (c : Bytes) :
    BufWriter W :=
  writeAll (writeAll writer (chunkFrame requestId c).header.encode.1) c

/-- A writer after the frames of `reads`. -/
def afterReads {W : Type} [AsyncWrite W] (requestId : UInt32) (reads : List Bytes)
    (writer : BufWriter W) : BufWriter W :=
  reads.foldl (afterRead requestId) writer

theorem sendChunks_eq {W : Type} [AsyncWrite W] (requestId : UInt32) :
    ∀ (chunks : List Bytes), (∀ c ∈ chunks, c.length ≤ defaultStreamChunkSize) → ∀ writer : BufWriter W,
      sendChunks requestId chunks writer = (.ok (), afterReads requestId chunks writer)
  | [], _, _ => rfl
  | c :: cs, h, writer => by
    have hc := chunk_le_max (h c List.mem_cons_self)
    rw [sendChunks, writeStreamFrame, writeHeaderAndPayload_of_le writer .stream _ requestId hc]
    exact sendChunks_eq requestId cs (fun d hd => h d (List.mem_cons_of_mem _ hd)) _

theorem afterReads_append {W : Type} [AsyncWrite W] (requestId : UInt32) (a b : List Bytes)
    (writer : BufWriter W) :
    afterReads requestId (a ++ b) writer = afterReads requestId b (afterReads requestId a writer) :=
  List.foldl_append

theorem readsMade_sizes : ∀ (files : List (BatchFileSource × ReadRun)), ∀ c ∈ readsMade files,
    0 < c.length ∧ c.length ≤ defaultStreamChunkSize
  | [], c, hc => by simp [readsMade] at hc
  | (file, run) :: rest, c, hc => by
    unfold readsMade at hc
    split at hc
    · simp at hc
    · split at hc
      · exact run.sizes c hc
      · split at hc
        · exact run.sizes c hc
        · rcases List.mem_append.mp hc with hc | hc
          · exact run.sizes c hc
          · exact readsMade_sizes rest c hc

/-- The loop returns the first failure, or the total of the sizes. -/
theorem streamFiles_fst {W : Type} [AsyncWrite W] (requestId : UInt32) (texts : StreamTexts) :
    ∀ (files : List (BatchFileSource × ReadRun)) (total : ℕ) (writer : BufWriter W),
      (streamFiles requestId texts files total writer).1 =
        match streamFailure texts files with
        | some err => .error err
        | none => .ok (total + (files.map fun f => f.1.size).sum)
  | [], total, writer => rfl
  | (file, run) :: rest, total, writer => by
    have hs := sendChunks_eq requestId run.chunks (fun c hc => (run.sizes c hc).2) writer
    rw [streamFiles, hs, streamFailure]
    cases run.opened with
    | error err => rfl
    | ok u =>
      cases run.ending with
      | error err => rfl
      | ok v =>
        by_cases hsize : run.content.length = file.size
        · simp only [hsize, ne_eq, not_true_eq_false, ↓reduceIte, List.map_cons, List.sum_cons]
          rw [streamFiles_fst requestId texts rest, Nat.add_assoc]
        · simp only [ne_eq, hsize, not_false_eq_true, ↓reduceIte]

/-- The writer when the loop is left: the frames of the reads made, and flushed
if the loop came to its end. -/
theorem streamFiles_snd {W : Type} [AsyncWrite W] (requestId : UInt32) (texts : StreamTexts) :
    ∀ (files : List (BatchFileSource × ReadRun)) (total : ℕ) (writer : BufWriter W),
      (streamFiles requestId texts files total writer).2 =
        if (streamFiles requestId texts files total writer).1.isOk then
          (afterReads requestId (readsMade files) writer).flush
        else afterReads requestId (readsMade files) writer
  | [], total, writer => rfl
  | (file, run) :: rest, total, writer => by
    have hs := sendChunks_eq requestId run.chunks (fun c hc => (run.sizes c hc).2) writer
    rw [streamFiles, hs, readsMade]
    cases ho : run.opened with
    | error err => rfl
    | ok u =>
      cases he : run.ending with
      | error err => rfl
      | ok v =>
        by_cases hsize : run.content.length = file.size
        · simp only [hsize, ne_eq, not_true_eq_false, ↓reduceIte]
          rw [streamFiles_snd requestId texts rest, afterReads_append]
        · simp only [ne_eq, hsize, not_false_eq_true, ↓reduceIte]
          rfl

/-! ### What is on the wire -/

/-- One more frame with a payload of `c` bytes, for the number of bytes held
back and whether the last flush came between a header and its payload. -/
def splitStep (s : ℕ × Bool) (c : ℕ) : ℕ × Bool :=
  let s := if s.1 + headerLen > writerCapacity then (0, false) else s
  let s := (s.1 + headerLen, s.2)
  let s := if s.1 + c > writerCapacity then (0, true) else s
  (s.1 + c, s.2)

/-- Reads of these sizes leave a header on the wire and its payload in the buffer. -/
def splits (sizes : List ℕ) : Bool := (sizes.foldl splitStep (0, false)).2

/-- The bytes of a list of frames. -/
def framesBytes (frames : List Frame) : Bytes := frames.flatMap Frame.bytes

@[simp] theorem framesBytes_nil : framesBytes [] = [] := rfl

theorem framesBytes_append (a b : List Frame) : framesBytes (a ++ b) = framesBytes a ++ framesBytes b := by
  simp [framesBytes]

theorem framesBytes_cons (f : Frame) (fs : List Frame) : framesBytes (f :: fs) = f.bytes ++ framesBytes fs := by
  simp [framesBytes]

/-- Whole frames at the head of a stream can be read in one way only. -/
theorem Frame.bytes_cancel {f g : Frame} (hf : f.Valid) (hg : g.Valid) {r r' : Bytes}
    (h : f.bytes ++ r = g.bytes ++ r') : f = g ∧ r = r' := by
  have h1 := readFrameInto_bytes hf r []
  rw [h, readFrameInto_bytes hg] at h1
  simp only [Prod.mk.injEq, Except.ok.injEq] at h1
  obtain ⟨hh, hr, hp⟩ := h1
  obtain ⟨fh, fp⟩ := f
  obtain ⟨gh, gp⟩ := g
  simp only at hh hp
  exact ⟨by rw [hh, hp], hr.symm⟩

theorem framesBytes_cancel : ∀ {fs gs : List Frame}, (∀ f ∈ fs, f.Valid) → (∀ g ∈ gs, g.Valid) →
    ∀ {r : Bytes}, framesBytes fs ++ r = framesBytes gs → ∃ gs', gs = fs ++ gs' ∧ r = framesBytes gs'
  | [], gs, _, _, r, h => ⟨gs, rfl, by simpa using h⟩
  | f :: fs, [], _, _, r, h => by
    have := congrArg List.length h
    rw [framesBytes_cons, List.append_assoc, List.length_append, f.bytes_length] at this
    simp [headerLen] at this
  | f :: fs, g :: gs, hfs, hgs, r, h => by
    rw [framesBytes_cons, framesBytes_cons, List.append_assoc] at h
    obtain ⟨rfl, hrest⟩ := Frame.bytes_cancel (hfs f List.mem_cons_self) (hgs g List.mem_cons_self) h
    obtain ⟨gs', rfl, hr⟩ := framesBytes_cancel (fun x hx => hfs x (List.mem_cons_of_mem _ hx))
      (fun x hx => hgs x (List.mem_cons_of_mem _ hx)) hrest
    exact ⟨gs', rfl, hr⟩

theorem framesBytes_inj {fs gs : List Frame} (hfs : ∀ f ∈ fs, f.Valid) (hgs : ∀ g ∈ gs, g.Valid)
    (h : framesBytes fs = framesBytes gs) : fs = gs := by
  obtain ⟨rest, rfl, hrest⟩ := framesBytes_cancel hfs hgs ((List.append_nil _).trans h)
  cases rest with
  | nil => rw [List.append_nil]
  | cons f rest =>
    have hlen := congrArg List.length hrest
    rw [framesBytes_cons, List.length_append, f.bytes_length, List.length_nil, headerLen] at hlen
    omega

/-- A header that announces a payload is not a list of whole frames. -/
theorem header_ne_framesBytes {f : Frame} (hf : f.Valid) (hp : 0 < f.payload.length) {gs : List Frame}
    (hgs : ∀ g ∈ gs, g.Valid) : f.header.encode.1 ≠ framesBytes gs := by
  intro h
  cases gs with
  | nil => simpa [f.header.encode_length, headerLen] using congrArg List.length h
  | cons g gs =>
    have hg := hgs g List.mem_cons_self
    rw [framesBytes_cons, Frame.bytes, List.append_assoc] at h
    have hlen : f.header.encode.1.length = g.header.encode.1.length := by
      rw [f.header.encode_length, g.header.encode_length]
    have hnil : g.payload ++ framesBytes gs = [] := by
      have := congrArg List.length h
      rw [List.length_append, ← hlen] at this
      exact List.eq_nil_of_length_eq_zero (by omega)
    rw [hnil, List.append_nil] at h
    have hdec := FrameHeader.decode_encode _ hf.version (by rw [hf.payloadLen]; exact hf.fits)
    rw [show f.header.encode = g.header.encode from Subtype.ext h,
      FrameHeader.decode_encode _ hg.version (by rw [hg.payloadLen]; exact hg.fits)] at hdec
    have hsame : g.header = f.header := by simpa using hdec
    have h0 : g.payload.length = 0 := by simp [(List.append_eq_nil_iff.mp hnil).1]
    rw [← hf.payloadLen, ← hsame, hg.payloadLen] at hp
    omega

/-- The buffered writer after `frames` have been written to it over a wire that
held `start`: `s` is what `splitStep` has counted. -/
structure Sent (start : Bytes) (frames : List Frame) (s : ℕ × Bool) (w : BufWriter Bytes) : Prop where
  capacity : w.capacity = writerCapacity
  held : w.buf.length = s.1
  written : w.written = start ++ framesBytes frames
  whole : s.2 = false → ∃ fs, fs <+: frames ∧ w.inner = start ++ framesBytes fs
  cut : s.2 = true → ∃ fs f, fs ++ [f] <+: frames ∧
    w.inner = start ++ framesBytes fs ++ f.header.encode.1

theorem Sent.nil (start : Bytes) :
    Sent start [] (0, false) (BufWriter.withCapacity writerCapacity start) where
  capacity := rfl
  held := rfl
  written := by simp
  whole _ := ⟨[], List.prefix_rfl, by simp [BufWriter.withCapacity]⟩
  cut h := by cases h

/-- A header is written: the frames so far leave first if it does not fit. -/
theorem Sent.header {start : Bytes} {frames : List Frame} {s : ℕ × Bool} {w : BufWriter Bytes}
    (h : Sent start frames s w) (f : Frame) :
    let s' := if s.1 + headerLen > writerCapacity then (0, false) else s
    let w' := writeAll w f.header.encode.1
    w'.capacity = writerCapacity ∧ w'.buf.length = s'.1 + headerLen ∧
      w'.written = start ++ framesBytes frames ++ f.header.encode.1 ∧
      (s'.2 = false → ∃ fs, fs <+: frames ∧ w'.inner = start ++ framesBytes fs) ∧
      (s'.2 = true → ∃ fs g, fs ++ [g] <+: frames ∧
        w'.inner = start ++ framesBytes fs ++ g.header.encode.1) := by
  have hlen := f.header.encode_length
  have hlt : f.header.encode.1.length < w.capacity := by rw [hlen, h.capacity]; decide
  have hw := BufWriter.writeAll_small w hlt
  rw [hlen, h.held, h.capacity] at hw
  refine ⟨by rw [BufWriter.writeAll_capacity, h.capacity], ?_, ?_, ?_⟩
  · rw [hw]
    split <;> simp [hlen, h.held]
  · rw [BufWriter.written_writeAll, h.written]
  · rw [hw]
    split
    · exact ⟨fun _ => ⟨frames, List.prefix_rfl, h.written⟩, fun hs => by cases hs⟩
    · exact ⟨h.whole, h.cut⟩

/-- One more frame. -/
theorem Sent.step {start : Bytes} {frames : List Frame} {s : ℕ × Bool} {w : BufWriter Bytes}
    (h : Sent start frames s w) (requestId : UInt32) {c : Bytes} (hc : c.length ≤ defaultStreamChunkSize) :
    Sent start (frames ++ [chunkFrame requestId c]) (splitStep s c.length) (afterRead requestId w c) := by
  obtain ⟨hcap, hheld, hwritten, hwhole, hcut⟩ := h.header (chunkFrame requestId c)
  set s' := if s.1 + headerLen > writerCapacity then (0, false) else s with hs'
  set w' := writeAll w (chunkFrame requestId c).header.encode.1 with hw'
  have hlt : c.length < w'.capacity := by
    rw [hcap]
    exact lt_of_le_of_lt hc (by decide)
  have hw := BufWriter.writeAll_small w' hlt
  rw [hheld, hcap] at hw
  have hstep : splitStep s c.length =
      if s'.1 + headerLen + c.length > writerCapacity then (c.length, true)
      else (s'.1 + headerLen + c.length, s'.2) := by
    simp only [splitStep, ← hs']
    split <;> simp
  have hframe : (chunkFrame requestId c).bytes = (chunkFrame requestId c).header.encode.1 ++ c := rfl
  have hpre : frames <+: frames ++ [chunkFrame requestId c] := List.prefix_append _ _
  change Sent start _ _ (writeAll w' c)
  refine ⟨by rw [BufWriter.writeAll_capacity, hcap], ?_, ?_, ?_, ?_⟩
  · rw [hw, hstep]
    split <;> simp [hheld]
  · rw [BufWriter.written_writeAll, hwritten, framesBytes_append, framesBytes_cons, hframe]
    simp
  · rw [hw, hstep]
    split
    · intro hs; cases hs
    · intro hs
      obtain ⟨fs, h1, h2⟩ := hwhole hs
      exact ⟨fs, h1.trans hpre, h2⟩
  · rw [hw, hstep]
    split
    · exact fun _ => ⟨frames, chunkFrame requestId c, List.prefix_rfl, hwritten⟩
    · intro hs
      obtain ⟨fs, g, h1, h2⟩ := hcut hs
      exact ⟨fs, g, h1.trans hpre, h2⟩

/-- The frames of any reads. -/
theorem Sent.afterReads {start : Bytes} (requestId : UInt32) : ∀ (reads : List Bytes),
    (∀ c ∈ reads, c.length ≤ defaultStreamChunkSize) → ∀ {frames : List Frame} {s : ℕ × Bool}
      {w : BufWriter Bytes}, Sent start frames s w →
      Sent start (frames ++ reads.map (chunkFrame requestId))
        ((reads.map List.length).foldl splitStep s) (afterReads requestId reads w)
  | [], _, _, _, _, h => by simpa [Rsdb.afterReads] using h
  | c :: cs, hcs, frames, s, w, h => by
    have h1 := h.step requestId (hcs c List.mem_cons_self)
    have h2 := Sent.afterReads requestId cs (fun d hd => hcs d (List.mem_cons_of_mem _ hd)) h1
    rw [List.append_assoc] at h2
    exact h2

/-- The frames of some reads. -/
def chunksBytes (requestId : UInt32) (reads : List Bytes) : Bytes :=
  framesBytes (reads.map (chunkFrame requestId))

theorem chunksBytes_append (requestId : UInt32) (a b : List Bytes) :
    chunksBytes requestId (a ++ b) = chunksBytes requestId a ++ chunksBytes requestId b := by
  rw [chunksBytes, List.map_append, framesBytes_append]
  rfl

theorem length_le_chunksBytes (requestId : UInt32) : ∀ reads : List Bytes,
    reads.length ≤ (chunksBytes requestId reads).length
  | [] => Nat.zero_le _
  | c :: cs => by
    have ih := length_le_chunksBytes requestId cs
    rw [chunksBytes, List.map_cons, framesBytes_cons, List.length_append, (chunkFrame requestId c).bytes_length,
      List.length_cons]
    have hlen : 0 < headerLen := by decide
    simp only [chunksBytes] at ih
    omega

/-! ### The end of the stream -/

section Eof

variable (requestId : UInt32)

/-- The empty frame that ends the stream. -/
def eofFrame : Frame := mkFrame .stream (streamFlags .file true) requestId []

theorem writeEof (stream : Bytes) :
    writeStreamFrame stream requestId .file true [] = (.ok (), stream ++ (eofFrame requestId).bytes) := by
  rw [writeStreamFrame, writeHeaderAndPayload_of_le stream .stream _ requestId (by simp)]
  simp [eofFrame, mkFrame, Frame.bytes]

theorem eofFrame_valid : (eofFrame requestId).Valid := mkFrame_valid (by simp)

end Eof

/-! ### The loop on a connection -/

section Through

variable (requestId : UInt32) (texts : StreamTexts)

/-- The streaming loop through a buffered writer, which is dropped on return. -/
def streamThrough (files : List (BatchFileSource × ReadRun)) (stream : Bytes) : Except AnyhowError ℕ × Bytes :=
  let (result, writer) := streamFiles requestId texts files 0 (BufWriter.withCapacity writerCapacity stream)
  (result, writer.inner)

theorem streamThrough_fst (files : List (BatchFileSource × ReadRun)) (stream : Bytes) :
    (streamThrough requestId texts files stream).1 =
      match streamFailure texts files with
      | some err => .error err
      | none => .ok ((files.map fun f => f.1.size).sum) := by
  have h := streamFiles_fst requestId texts files 0 (BufWriter.withCapacity writerCapacity stream)
  rw [streamThrough]
  cases hf : streamFailure texts files <;> simpa [hf] using h

/-- The writer of the loop when the loop is left. -/
theorem sent_readsMade (files : List (BatchFileSource × ReadRun)) (start : Bytes) :
    Sent start ((readsMade files).map (chunkFrame requestId))
      (((readsMade files).map List.length).foldl splitStep (0, false))
      (afterReads requestId (readsMade files) (BufWriter.withCapacity writerCapacity start)) :=
  Sent.afterReads requestId _ (fun c hc => (readsMade_sizes _ c hc).2) (Sent.nil start)

/-- Every file steady: the loop flushes, and all frames are on the wire. -/
theorem streamThrough_of_steady {files : List (BatchFileSource × ReadRun)}
    (h : streamFailure texts files = none) (start : Bytes) :
    streamThrough requestId texts files start =
      (.ok (files.map fun f => f.1.size).sum, start ++ chunksBytes requestId (readsMade files)) := by
  have hfst := streamThrough_fst requestId texts files start
  have hsnd := streamFiles_snd requestId texts files 0 (BufWriter.withCapacity writerCapacity start)
  rw [h] at hfst
  refine Prod.ext hfst ?_
  have hok : (streamFiles requestId texts files 0 (BufWriter.withCapacity writerCapacity start)).1 =
      .ok (files.map fun f => f.1.size).sum := hfst
  rw [hok] at hsnd
  show (streamFiles _ _ _ _ _).2.inner = _
  rw [hsnd, if_pos (show (Except.ok _ : Except AnyhowError ℕ).isOk = true from rfl), BufWriter.flush_inner,
    (sent_readsMade requestId files start).written, chunksBytes]

/-- Some file not steady: what the buffer holds is lost. -/
theorem streamThrough_of_failure {files : List (BatchFileSource × ReadRun)} {err : AnyhowError}
    (h : streamFailure texts files = some err) (start : Bytes) :
    streamThrough requestId texts files start =
      (.error err, (afterReads requestId (readsMade files) (BufWriter.withCapacity writerCapacity start)).inner) := by
  have hfst := streamThrough_fst requestId texts files start
  have hsnd := streamFiles_snd requestId texts files 0 (BufWriter.withCapacity writerCapacity start)
  rw [h] at hfst
  refine Prod.ext hfst ?_
  have herr : (streamFiles requestId texts files 0 (BufWriter.withCapacity writerCapacity start)).1 = .error err :=
    hfst
  rw [herr] at hsnd
  show (streamFiles _ _ _ _ _).2.inner = _
  rw [hsnd, if_neg (by simp [Except.isOk, Except.toBool])]

end Through

end Rsdb
