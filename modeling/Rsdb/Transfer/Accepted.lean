/-
# What a receiver accepts

The two receive loops share one stream position between the entries and the
chunks of a file. Whatever frames come in, honest or not: a loop that completes
has consumed, for every file entry in order, chunk frames that make up exactly
its bytes, and one empty eof frame after them, and it has written each file's
bytes to the handle it opened for that file.

The results are about executions, so the answers of the operating system are any;
`Accepted` is the relation between the entries and what was consumed and written, to
the root paths that the receiver's resolver has returned.
-/
import Rsdb.Lib.Execution
import Rsdb.Transfer.Containment

namespace Rsdb

open Prog

/-- The calls of a run with their answers. -/
abbrev ActTrace := Prog.Trace Call.Answer

/-! ### What was written -/

/-- The writes up to the next file that is opened. -/
def writesBefore : ActTrace → List (ℕ × Bytes)
  | [] => []
  | ⟨.openWrite _ _, _⟩ :: _ => []
  | ⟨.write fd data, .ok ()⟩ :: trace => (fd, data) :: writesBefore trace
  | _ :: trace => writesBefore trace

/-- The files that were opened, each with its handle and the writes that follow. -/
def filesWritten : ActTrace → List (Path × ℕ × List (ℕ × Bytes))
  | [] => []
  | ⟨.openWrite p _, .ok fd⟩ :: trace => (p, fd, writesBefore trace) :: filesWritten trace
  | _ :: trace => filesWritten trace

/-- A call that opens nothing and writes nothing. -/
def Quiet : Call → Prop
  | .openWrite _ _ | .write _ _ => False
  | _ => True

theorem filesWritten_cons_of_quiet {c : Call} (hc : Quiet c) (answer : c.Answer) (trace : ActTrace) :
    filesWritten (⟨c, answer⟩ :: trace) = filesWritten trace ∧ writesBefore (⟨c, answer⟩ :: trace) = writesBefore trace := by
  cases c <;> first | exact ⟨rfl, rfl⟩ | exact hc.elim

theorem filesWritten_append_of_quiet : ∀ {before : ActTrace}, (∀ c ∈ before, Quiet c.1) → ∀ trace : ActTrace,
    filesWritten (before ++ trace) = filesWritten trace ∧ writesBefore (before ++ trace) = writesBefore trace
  | [], _, _ => ⟨rfl, rfl⟩
  | ⟨c, answer⟩ :: before, h, trace => by
    rw [List.forall_mem_cons] at h
    obtain ⟨hfiles, hwrites⟩ := filesWritten_append_of_quiet h.2 trace
    obtain ⟨hfiles', hwrites'⟩ := filesWritten_cons_of_quiet h.1 answer (before ++ trace)
    exact ⟨hfiles'.trans hfiles, hwrites'.trans hwrites⟩

/-- The calls of a program that satisfies `P`, in an execution of it. -/
theorem exec_all {α : Type} {P : Call → Prop} {x : Act α} {trace : ActTrace} {stop : Stop AnyhowError α}
    (h : Exec x trace stop) (hall : All P x) : ∀ c ∈ trace, P c.1 := by
  induction h with
  | pure | fail | waiting => exact fun c hc => by cases hc
  | call r _ ih => exact List.forall_mem_cons.mpr ⟨hall.1, ih (hall.2 r)⟩

/-- The writes of some data to one handle. -/
def writesOf (fd : ℕ) (datas : List Bytes) : ActTrace := datas.map fun data => ⟨.write fd data, .ok ()⟩

theorem writesBefore_writesOf (fd : ℕ) : ∀ (datas : List Bytes) (trace : ActTrace),
    writesBefore (writesOf fd datas ++ trace) = datas.map (fd, ·) ++ writesBefore trace ∧
      filesWritten (writesOf fd datas ++ trace) = filesWritten trace
  | [], _ => ⟨rfl, rfl⟩
  | data :: datas, trace => by
    obtain ⟨hwrites, hfiles⟩ := writesBefore_writesOf fd datas trace
    exact ⟨congrArg ((fd, data) :: ·) hwrites, hfiles⟩

/-! ### What was consumed -/

/-- A stream frame of the file channel with the session's request id. -/
def IsFileFrame (requestId : UInt32) (eof : Bool) (f : Frame) : Prop :=
  decodeStreamFrameHeader f.header = .ok ⟨requestId, .file, eof⟩

/-- The bytes in the payloads of some frames. -/
def payloads (frames : List Frame) : Bytes := (frames.map Frame.payload).flatten

theorem payloads_cons (f : Frame) (fs : List Frame) : payloads (f :: fs) = f.payload ++ payloads fs := rfl

/-- The frames a file is read from: chunks, with exactly its bytes and no chunk
after the last of them. -/
structure FileSegment (requestId : UInt32) (size : ℕ) (segment : List Frame) : Prop where
  chunks : ∀ f ∈ segment, IsFileFrame requestId false f
  full : (payloads segment).length = size
  tight : ∀ taken rest, segment = taken ++ rest → rest ≠ [] → (payloads taken).length < size

/-- What was read and written for one file entry. -/
structure FileReceived (requestId : UInt32) (rootPaths : List Path) (entry : TransferEntry)
    (received : List Frame × Path × ℕ × List (ℕ × Bytes)) : Prop where
  segment : FileSegment requestId entry.size received.1
  path : resolveTransferEntryPath rootPaths entry = .ok received.2.1
  /-- Every payload that is not empty, to the handle of the file. -/
  writes : received.2.2.2 = ((received.1.map Frame.payload).filter fun data => data ≠ []).map (received.2.2.1, ·)

/-- The entries that are files, in order. -/
def fileEntries (entries : List TransferEntry) : List TransferEntry := entries.filter fun e => e.kind = .file

variable (r : Receiver)

/-- A frame that is read is the next one, and is of the session's file stream. -/
theorem readFileStreamChunk_ok {frames : List Frame} (hvalid : ∀ f ∈ frames, f.Valid) {chunk : StreamFrameHeader}
    {payload left : Bytes} (h : r.readFileStreamChunk (framesBytes frames) = .ok (chunk, payload, left)) :
    ∃ f rest, frames = f :: rest ∧ payload = f.payload ∧ left = framesBytes rest ∧
      IsFileFrame r.requestId chunk.eof f := by
  unfold Receiver.readFileStreamChunk at h
  cases frames with
  | nil =>
    have hshort : (readStreamFrameInto [] []).1 = .error (.io .unexpectedEof) := by decide +kernel
    generalize hread : readStreamFrameInto (framesBytes []) [] = read at h
    obtain ⟨result, left'⟩ := read
    rw [framesBytes_nil] at hread
    rw [hread] at hshort
    simp only at hshort
    subst hshort
    cases h
  | cons f rest =>
    rw [List.forall_mem_cons] at hvalid
    have hread : readStreamFrameInto (framesBytes (f :: rest)) [] =
        (decodeStreamFrameHeader f.header, framesBytes rest, f.payload) := by
      rw [framesBytes_cons, readStreamFrameInto, readFrameInto_bytes hvalid.1]
    rw [hread] at h
    cases hdecode : decodeStreamFrameHeader f.header with
    | error err =>
      rw [hdecode] at h
      cases h
    | ok header =>
      rw [hdecode] at h
      simp only at h
      split at h
      · cases h
      · rename_i hid
        split at h
        · cases h
        · rename_i hchannel
          simp only [Except.ok.injEq, Prod.mk.injEq] at h
          obtain ⟨rfl, rfl, rfl⟩ := h
          refine ⟨f, rest, rfl, rfl, rfl, ?_⟩
          rw [IsFileFrame, hdecode, ← not_not.mp hid, ← not_not.mp hchannel]

/-! ### The segment of a file -/

theorem FileSegment.nil (requestId : UInt32) : FileSegment requestId 0 [] where
  chunks f hf := by cases hf
  full := rfl
  tight taken rest heq hne := absurd (List.append_eq_nil_iff.mp heq.symm).2 hne

/-- A chunk that is not too large, and the rest of the file. -/
theorem FileSegment.cons {requestId : UInt32} {size : ℕ} {f : Frame} {segment : List Frame}
    (hf : IsFileFrame requestId false f) (hpos : 0 < size) (hle : f.payload.length ≤ size)
    (h : FileSegment requestId (size - f.payload.length) segment) : FileSegment requestId size (f :: segment) where
  chunks := List.forall_mem_cons.mpr ⟨hf, h.chunks⟩
  full := by
    rw [payloads_cons, List.length_append, h.full]
    omega
  tight taken rest heq hne := by
    cases taken with
    | nil => exact hpos
    | cons g taken =>
      obtain ⟨rfl, hsegment⟩ := List.cons.inj heq
      have hlt := h.tight taken rest hsegment hne
      rw [payloads_cons, List.length_append]
      omega

theorem ioWrite_returned {path : Path} {result : Except IoError Unit} {trace : ActTrace}
    (h : Exec (r.ioWrite path result) trace (.returned ())) : trace = [] ∧ result = .ok () := by
  unfold Receiver.ioWrite at h
  split at h <;> cases result <;> first | (cases h; done) | exact ⟨(exec_pure_returned h).1, rfl⟩

/-- A file that is received. -/
theorem receiveFile_returned (path : Path) (fd : ℕ) : ∀ (fuel remaining bytes : ℕ) {frames : List Frame}
    {trace : ActTrace} {bytes' : ℕ} {left : Bytes}, (∀ f ∈ frames, f.Valid) →
    Exec (r.receiveFile path fd fuel remaining bytes (framesBytes frames)) trace (.returned (bytes', left)) →
      ∃ segment rest, frames = segment ++ rest ∧ left = framesBytes rest ∧ bytes' = bytes + remaining ∧
        FileSegment r.requestId remaining segment ∧
        trace = writesOf fd ((segment.map Frame.payload).filter fun data => data ≠ [])
  | fuel, 0, bytes, frames, trace, bytes', left, _, h => by
    unfold Receiver.receiveFile at h
    obtain ⟨rfl, hresult⟩ := exec_pure_returned h
    obtain ⟨rfl, rfl⟩ := Prod.mk.inj hresult
    exact ⟨[], frames, rfl, rfl, rfl, .nil _, rfl⟩
  | 0, remaining + 1, bytes, frames, trace, bytes', left, _, h => by
    unfold Receiver.receiveFile at h
    cases h
  | fuel + 1, remaining + 1, bytes, frames, trace, bytes', left, hvalid, h => by
    unfold Receiver.receiveFile at h
    cases hchunk : r.readFileStreamChunk (framesBytes frames) with
    | error err =>
      rw [hchunk] at h
      cases h
    | ok read =>
      obtain ⟨chunk, payload, input⟩ := read
      obtain ⟨f, rest, rfl, rfl, rfl, hf⟩ := readFileStreamChunk_ok r hvalid hchunk
      rw [List.forall_mem_cons] at hvalid
      rw [hchunk] at h
      simp only at h
      split at h
      · cases h
      rename_i heof
      rw [Bool.not_eq_true] at heof
      rw [heof] at hf
      split at h
      · cases h
      rename_i hle
      split at h
      · rename_i hnil
        obtain ⟨segment, rest', rfl, rfl, hbytes, hsegment, htrace⟩ :=
          receiveFile_returned path fd fuel (remaining + 1) bytes hvalid.2 h
        refine ⟨f :: segment, rest', rfl, rfl, hbytes, .cons hf (Nat.succ_pos _) (by omega) ?_, ?_⟩
        · rwa [hnil, List.length_nil, Nat.sub_zero]
        · rw [htrace, List.map_cons, List.filter_cons_of_neg (by simpa using hnil)]
      · rename_i hne
        obtain ⟨answer, trace', rfl, hwrite⟩ := exec_ask_returned h
        obtain ⟨_, first, last, rfl, hio, hnext⟩ := exec_bind_returned hwrite
        obtain ⟨rfl, rfl⟩ := ioWrite_returned r hio
        obtain ⟨segment, rest', rfl, rfl, hbytes, hsegment, htrace⟩ :=
          receiveFile_returned path fd fuel _ _ hvalid.2 hnext
        refine ⟨f :: segment, rest', rfl, rfl, by omega, .cons hf (Nat.succ_pos _) (by omega) hsegment, ?_⟩
        rw [htrace, List.map_cons, List.filter_cons_of_pos (by simpa using hne)]
        rfl

/-! ### The calls around a file -/

theorem quiet_ioContext {α : Type} (context : Str) (result : Except IoError α) :
    All Quiet (Act.ioContext context result) := by cases result <;> trivial

theorem quiet_createDirectory (p : Path) : All Quiet (r.createDirectory p) := by
  refine all_bind.mpr ⟨(makesDirs_createDirs _).mono fun c hc => ?_, fun _ _ => quiet_ioContext _ _⟩
  cases c <;> trivial

theorem quiet_createParents (p : Path) : All Quiet (r.createParents p) := by
  unfold Receiver.createParents
  split
  · trivial
  · split
    · trivial
    · exact quiet_createDirectory r _

theorem quiet_setPermissions (p : Path) (entryMode mode : ℕ) : All Quiet (Receiver.setPermissions p entryMode mode) := by
  unfold Receiver.setPermissions
  split
  · trivial
  · exact ⟨trivial, fun _ => quiet_ioContext _ _⟩

theorem quiet_receiveDirectory (p : Path) (entry : TransferEntry) : All Quiet (r.receiveDirectory p entry) :=
  all_bind.mpr ⟨quiet_createDirectory r p, fun _ _ => quiet_setPermissions p _ _⟩

theorem ioContext_returned {α : Type} {context : Str} {result : Except IoError α} {trace : ActTrace} {a : α}
    (h : Exec (Act.ioContext context result) trace (.returned a)) : trace = [] ∧ result = .ok a := by
  cases result with
  | error err => cases h
  | ok b =>
    obtain ⟨rfl, rfl⟩ := exec_pure_returned h
    exact ⟨rfl, rfl⟩

theorem ofExcept_returned {α : Type} {result : Except AnyhowError α} {trace : ActTrace} {a : α}
    (h : Exec (.ofExcept result : Act α) trace (.returned a)) : trace = [] ∧ result = .ok a := by
  cases result with
  | error err => cases h
  | ok b =>
    obtain ⟨rfl, rfl⟩ := exec_pure_returned h
    exact ⟨rfl, rfl⟩

/-! ### The entries -/

/-- A regular file: opened once, filled from its segment, and nothing written
before it. -/
theorem receiveRegular_returned {rootPaths : List Path} {entry : TransferEntry} {path : Path}
    (hpath : resolveTransferEntryPath rootPaths entry = .ok path) {bytes bytes' : ℕ} {frames : List Frame}
    {trace : ActTrace} {left : Bytes} (hvalid : ∀ f ∈ frames, f.Valid)
    (h : Exec (r.receiveRegular path entry bytes (framesBytes frames)) trace (.returned (bytes', left))) :
    ∃ segment rest fd writes, frames = segment ++ rest ∧ left = framesBytes rest ∧ bytes' = bytes + entry.size ∧
      FileReceived r.requestId rootPaths entry (segment, path, fd, writes) ∧
      ∀ more, writesBefore more = [] → filesWritten (trace ++ more) = (path, fd, writes) :: filesWritten more ∧
        writesBefore (trace ++ more) = [] := by
  obtain ⟨_, parents, afterParents, rfl, hparents, hopen⟩ := exec_bind_returned h
  obtain ⟨opened, afterOpen, rfl, hopened⟩ := exec_ask_returned hopen
  obtain ⟨fd, _, afterFd, rfl, hfd, hfile⟩ := exec_bind_returned hopened
  obtain ⟨rfl, rfl⟩ := ioContext_returned hfd
  obtain ⟨⟨bytes'', left'⟩, received, afterFile, rfl, hreceived, hchmod⟩ := exec_bind_returned hfile
  obtain ⟨_, permissions, last, rfl, hpermissions, hlast⟩ := exec_bind_returned hchmod
  obtain ⟨rfl, hresult⟩ := exec_pure_returned hlast
  obtain ⟨rfl, rfl⟩ := Prod.mk.inj hresult
  obtain ⟨segment, rest, rfl, rfl, rfl, hsegment, rfl⟩ := receiveFile_returned r path fd _ _ _ hvalid hreceived
  set datas := (segment.map Frame.payload).filter fun data => data ≠ []
  have hquiet : ∀ c ∈ parents, Quiet c.1 := exec_all hparents (quiet_createParents r path)
  have hquiet' : ∀ c ∈ permissions, Quiet c.1 := exec_all hpermissions (quiet_setPermissions path _ _)
  refine ⟨segment, rest, fd, datas.map (fd, ·), rfl, rfl, rfl, ⟨hsegment, hpath, rfl⟩, fun more hmore => ?_⟩
  have hafter : filesWritten (permissions ++ more) = filesWritten more ∧ writesBefore (permissions ++ more) = [] := by
    rw [← hmore]
    exact filesWritten_append_of_quiet hquiet' more
  have hdatas := writesBefore_writesOf fd datas (permissions ++ more)
  rw [hafter.1, hafter.2, List.append_nil] at hdatas
  have htrace : parents ++ ⟨.openWrite path (normalizeMode entry.mode), .ok fd⟩ ::
      ([] ++ (writesOf fd datas ++ (permissions ++ []))) ++ more =
        parents ++ (⟨.openWrite path (normalizeMode entry.mode), .ok fd⟩ :: (writesOf fd datas ++ (permissions ++ more))) := by
    simp
  rw [htrace]
  obtain ⟨hfiles, hwrites⟩ := filesWritten_append_of_quiet hquiet
    (⟨.openWrite path (normalizeMode entry.mode), .ok fd⟩ :: (writesOf fd datas ++ (permissions ++ more)))
  refine ⟨hfiles.trans ?_, hwrites⟩
  rw [filesWritten, hdatas.1, hdatas.2]

/-- The entries, from any position of the stream on. -/
theorem receiveEntries_returned (rootPaths : List Path) : ∀ (entries : List TransferEntry) (n bytes : ℕ)
    {frames : List Frame} {trace : ActTrace} {n' bytes' : ℕ} {left : Bytes}, (∀ f ∈ frames, f.Valid) →
    Exec (r.receiveEntries rootPaths entries n bytes (framesBytes frames)) trace (.returned (n', bytes', left)) →
      ∃ received rest, frames = (received.map Prod.fst).flatten ++ rest ∧ left = framesBytes rest ∧
        n' = n + entries.length ∧ bytes' = bytes + ((fileEntries entries).map TransferEntry.size).sum ∧
        List.Forall₂ (FileReceived r.requestId rootPaths) (fileEntries entries) received ∧
        filesWritten trace = received.map Prod.snd ∧ writesBefore trace = []
  | [], n, bytes, frames, trace, n', bytes', left, _, h => by
    obtain ⟨rfl, hresult⟩ := exec_pure_returned h
    simp only [Prod.mk.injEq] at hresult
    obtain ⟨rfl, rfl, rfl⟩ := hresult
    exact ⟨[], frames, rfl, rfl, rfl, rfl, .nil, rfl, rfl⟩
  | entry :: entries, n, bytes, frames, trace, n', bytes', left, hvalid, h => by
    obtain ⟨⟨bytes1, left1⟩, first, after, rfl, hentry, hrest⟩ := exec_bind_returned h
    obtain ⟨path, _, afterPath, rfl, hresolve, hkind⟩ := exec_bind_returned hentry
    obtain ⟨rfl, hpath⟩ := ofExcept_returned hresolve
    cases hfile : entry.kind with
    | directory =>
      simp only [hfile] at hkind
      obtain ⟨_, made, last, rfl, hmade, hlast⟩ := exec_bind_returned hkind
      obtain ⟨rfl, hresult⟩ := exec_pure_returned hlast
      obtain ⟨rfl, rfl⟩ := Prod.mk.inj hresult
      obtain ⟨received, rest, hframes, hleft, hn, hbytes, hreceived, hfiles, hwrites⟩ :=
        receiveEntries_returned rootPaths entries (n + 1) _ hvalid hrest
      have hskip : fileEntries (entry :: entries) = fileEntries entries :=
        List.filter_cons_of_neg (by simp [hfile])
      have hquiet : ∀ c ∈ [] ++ (made ++ []), Quiet c.1 := by
        rw [List.append_nil, List.nil_append]
        exact exec_all hmade (quiet_receiveDirectory r path entry)
      obtain ⟨hfiles', hwrites'⟩ := filesWritten_append_of_quiet hquiet after
      rw [hskip]
      refine ⟨received, rest, hframes, hleft, ?_, hbytes, hreceived, hfiles'.trans hfiles, hwrites'.trans hwrites⟩
      rw [hn, List.length_cons]
      omega
    | file =>
      simp only [hfile] at hkind
      obtain ⟨segment, rest1, fd, writes, rfl, rfl, rfl, hone, hafter⟩ := receiveRegular_returned r hpath hvalid hkind
      rw [List.forall_mem_append] at hvalid
      obtain ⟨received, rest, rfl, hleft, hn, hbytes, hreceived, hfiles, hwrites⟩ :=
        receiveEntries_returned rootPaths entries (n + 1) _ hvalid.2 hrest
      have htake : fileEntries (entry :: entries) = entry :: fileEntries entries :=
        List.filter_cons_of_pos (by simp [hfile])
      obtain ⟨hfiles', hwrites'⟩ := hafter after hwrites
      rw [htake, List.nil_append]
      refine ⟨(segment, path, fd, writes) :: received, rest, by simp, hleft, ?_, ?_, .cons hone hreceived, ?_, hwrites'⟩
      · rw [hn, List.length_cons]
        omega
      · rw [hbytes, List.map_cons, List.sum_cons]
        omega
      · rw [hfiles', hfiles]
        rfl

/-! ### The batch -/

/-- What a completed receiver has consumed and written: a segment for every file
entry, in order and each to the handle of its own file, and then an empty eof frame. -/
def Accepted (requestId : UInt32) (rootPaths : List Path) (entries : List TransferEntry) (frames rest : List Frame)
    (files : List (Path × ℕ × List (ℕ × Bytes))) : Prop :=
  ∃ (received : List (List Frame × Path × ℕ × List (ℕ × Bytes))) (last : Frame),
    frames = (received.map Prod.fst).flatten ++ last :: rest ∧
      List.Forall₂ (FileReceived requestId rootPaths) (fileEntries entries) received ∧
      IsFileFrame requestId true last ∧ last.payload = [] ∧ files = received.map Prod.snd

/-- The bytes of all files together. -/
def totalSize (entries : List TransferEntry) : ℕ := ((fileEntries entries).map TransferEntry.size).sum

theorem expectFileStreamEof_ok {frames : List Frame} (hvalid : ∀ f ∈ frames, f.Valid) {left : Bytes}
    (h : r.expectFileStreamEof (framesBytes frames) = .ok left) :
    ∃ last rest, frames = last :: rest ∧ left = framesBytes rest ∧ IsFileFrame r.requestId true last ∧
      last.payload = [] := by
  unfold Receiver.expectFileStreamEof at h
  cases hchunk : r.readFileStreamChunk (framesBytes frames) with
  | error err =>
    rw [hchunk] at h
    cases h
  | ok read =>
    obtain ⟨chunk, payload, input⟩ := read
    obtain ⟨f, rest, rfl, rfl, rfl, hf⟩ := readFileStreamChunk_ok r hvalid hchunk
    rw [hchunk] at h
    simp only at h
    split at h
    · cases h
    · rename_i hend
      obtain ⟨heof, hnil⟩ := not_or.mp hend
      rw [Bool.not_eq_false] at heof
      rw [heof] at hf
      exact ⟨f, rest, rfl, (Except.ok.inj h).symm, hf, not_not.mp hnil⟩

theorem receiveBatch_returned {rootPaths : List Path} {entries : List TransferEntry} {frames : List Frame}
    {trace : ActTrace} {n bytes : ℕ} {left : Bytes} (hvalid : ∀ f ∈ frames, f.Valid)
    (h : Exec (r.receiveBatch rootPaths entries (framesBytes frames)) trace (.returned (n, bytes, left))) :
    ∃ rest, Accepted r.requestId rootPaths entries frames rest (filesWritten trace) ∧ n = entries.length ∧
      bytes = totalSize entries ∧ left = framesBytes rest := by
  obtain ⟨⟨n', bytes', left'⟩, first, after, rfl, hentries, hend⟩ := exec_bind_returned h
  obtain ⟨left'', _, last, rfl, hexpect, hlast⟩ := exec_bind_returned hend
  obtain ⟨rfl, heof⟩ := ofExcept_returned hexpect
  obtain ⟨rfl, hresult⟩ := exec_pure_returned hlast
  simp only [Prod.mk.injEq] at hresult
  obtain ⟨rfl, rfl, rfl⟩ := hresult
  obtain ⟨received, rest, rfl, rfl, hn, hbytes, hreceived, hfiles, _⟩ :=
    receiveEntries_returned r rootPaths entries 0 0 hvalid hentries
  rw [List.forall_mem_append] at hvalid
  obtain ⟨eof, rest', rfl, hleft, heofFrame, hnil⟩ := expectFileStreamEof_ok r hvalid.2 heof
  refine ⟨rest', ⟨received, eof, rfl, hreceived, heofFrame, hnil, ?_⟩, ?_, ?_, hleft⟩
  · rw [List.append_nil, List.append_nil, hfiles]
  · rw [hn, Nat.zero_add]
  · rw [hbytes, Nat.zero_add, totalSize]

theorem quiet_resolveRoots (statContext notDirectory : Str) (destination : Path) (trailing : Bool)
    (roots : List TransferRoot) : All Quiet (resolveRoots statContext notDirectory destination trailing roots) := by
  have hofExcept : ∀ result : Except AnyhowError (List Path), All Quiet (.ofExcept result : Act (List Path)) :=
    fun result => by cases result <;> trivial
  refine ⟨trivial, fun answer => ?_⟩
  cases answer with
  | ok m => exact hofExcept _
  | error err =>
    show All Quiet (if err.kind = .notFound then _ else _)
    split
    · exact hofExcept _
    · trivial

/-! ### The two receivers -/

theorem quiet_resolveBatchDestinationRoots (destination : Str) (roots : List TransferRoot) :
    All Quiet (Daemon.resolveBatchDestinationRoots destination roots) := by
  unfold Daemon.resolveBatchDestinationRoots
  split
  · trivial
  · refine all_bind.mpr ⟨by cases Daemon.ensureUniqueRootNames roots <;> trivial, fun _ _ => ?_⟩
    split
    · trivial
    · exact quiet_resolveRoots _ _ _ _ _

theorem quiet_resolveLocalBatchRoots (destination : Str) (roots : List TransferRoot) :
    All Quiet (Client.resolveLocalBatchRoots destination roots) := by
  unfold Client.resolveLocalBatchRoots
  split
  · trivial
  · exact all_bind.mpr ⟨by cases Client.ensureUniqueRootNames roots <;> trivial, fun _ _ => quiet_resolveRoots _ _ _ _ _⟩

/-- The first part of the execution is the resolver, which has returned these root paths;
after it the frames are received. -/
structure AcceptedUnder (resolver : Act (List Path)) (requestId : UInt32) (entries : List TransferEntry)
    (frames rest : List Frame) (trace : ActTrace) (rootPaths : List Path) : Prop where
  resolved : ∃ resolving receiving, trace = resolving ++ receiving ∧ Exec resolver resolving (.returned rootPaths)
  accepted : Accepted requestId rootPaths entries frames rest (filesWritten trace)

theorem acceptedUnder_of_parts {resolver : Act (List Path)} {requestId : UInt32} {entries : List TransferEntry}
    {frames rest : List Frame} {resolving receiving : ActTrace} {rootPaths : List Path} (hquiet : All Quiet resolver)
    (hresolved : Exec resolver resolving (.returned rootPaths))
    (haccepted : Accepted requestId rootPaths entries frames rest (filesWritten receiving)) :
    AcceptedUnder resolver requestId entries frames rest (resolving ++ receiving) rootPaths := by
  refine ⟨⟨resolving, receiving, rfl, hresolved⟩, ?_⟩
  rwa [(filesWritten_append_of_quiet (exec_all hresolved hquiet) receiving).1]

/-- **What a receiver accepts.** For every manifest and every sequence of frames,
honest or not, after which the stream ends, and for any answers of the operating
system: a batch receiver that comes to its end returns an error, or it has
consumed one segment for every file entry in manifest order, made up of chunk
frames of the session's file stream with exactly the entry's bytes, each written
to that entry's file, below the path its resolver has returned for the root, and an
empty eof frame last; and it reports the number of entries and the sum of their
sizes. -/
theorem receivers_accept (frames : List Frame) (hvalid : ∀ f ∈ frames, f.Valid) (roots : List TransferRoot)
    (entries : List TransferEntry) (destination : Str) :
    (∀ (requestId : UInt32) (trace : ActTrace) (stop : Stop AnyhowError ControlResponse),
      Exec (Daemon.handlePushBatch requestId destination roots entries (framesBytes frames)) trace stop →
        stop ≠ .waiting → (∃ err, stop = .failed err) ∨
          (∃ rootPaths rest, AcceptedUnder (Daemon.resolveBatchDestinationRoots destination roots) requestId entries frames
            rest trace rootPaths) ∧ stop = .returned (.pushBatchComplete entries.length (totalSize entries))) ∧
    ∀ (trace : ActTrace) (stop : Stop AnyhowError (ℕ × ℕ × Bytes)),
      Exec (Client.receiveLocalBatch destination roots entries (framesBytes frames)) trace stop →
        stop ≠ .waiting → (∃ err, stop = .failed err) ∨
          ∃ rootPaths rest, AcceptedUnder (Client.resolveLocalBatchRoots destination roots) Client.clientRequestId entries
            frames rest trace rootPaths ∧ stop = .returned (entries.length, totalSize entries, framesBytes rest) := by
  refine ⟨fun requestId trace stop h hdone => ?_, fun trace stop h hdone => ?_⟩
  · match stop with
    | .waiting => exact absurd rfl hdone
    | .failed err => exact Or.inl ⟨err, rfl⟩
    | .returned response =>
      obtain ⟨rootPaths, before, after, rfl, hroots, hbatch⟩ := exec_bind_returned h
      obtain ⟨⟨n, bytes, left⟩, received, last, rfl, hreceived, hlast⟩ := exec_bind_returned hbatch
      obtain ⟨rfl, rfl⟩ := exec_pure_returned hlast
      obtain ⟨rest, haccepted, rfl, rfl, _⟩ := receiveBatch_returned (Daemon.pushReceiver requestId) hvalid hreceived
      rw [List.append_nil]
      exact Or.inr ⟨⟨rootPaths, rest,
        acceptedUnder_of_parts (quiet_resolveBatchDestinationRoots destination roots) hroots haccepted⟩, rfl⟩
  · match stop with
    | .waiting => exact absurd rfl hdone
    | .failed err => exact Or.inl ⟨err, rfl⟩
    | .returned (n, bytes, left) =>
      obtain ⟨rootPaths, before, received, rfl, hroots, hreceived⟩ := exec_bind_returned h
      obtain ⟨rest, haccepted, rfl, rfl, rfl⟩ := receiveBatch_returned Client.pullReceiver hvalid hreceived
      exact Or.inr ⟨rootPaths, rest,
        acceptedUnder_of_parts (quiet_resolveLocalBatchRoots destination roots) hroots haccepted, rfl⟩

/-! ### Two chunks for one file -/

/-- Nothing is there, and every call that changes something succeeds. -/
def obliging : (c : Call) → c.Answer
  | .stat _ | .lstat _ => .error IoErrorKind.notFound.toError
  | .openWrite _ _ | .createNew _ _ | .openRead _ => .ok 3
  | .read _ _ | .readDir _ => .ok []
  | .openDir _ _ | .listDir _ => .ok []
  | .mkdir _ | .write _ _ | .chmod _ _ | .rename _ _ | .unlink _ | .rmdir _ | .unlinkAt _ _ | .rmdirAt _ _ => .ok ()

/-- Two chunks of one byte, and the end. -/
def twoChunks : List Frame :=
  [chunkFrame 7 (str "h"), chunkFrame 7 (str "i"), mkFrame .stream (streamFlags .file true) 7 []]

/-- A batch of one file. -/
def oneFileRoots : List TransferRoot := [⟨str "f", .file, 0o644⟩]

/-- The file has two bytes. -/
def oneFileEntries : List TransferEntry := [⟨0, [], .file, 0o644, 2⟩]

theorem receivers_accept_two_chunks :
    (follow obliging (Daemon.handlePushBatch 7 (str "/f") oneFileRoots oneFileEntries (framesBytes twoChunks))).2 =
        .returned (.pushBatchComplete 1 2) ∧
      ∃ rootPaths rest, AcceptedUnder (Daemon.resolveBatchDestinationRoots (str "/f") oneFileRoots) 7 oneFileEntries
        twoChunks rest (follow obliging
          (Daemon.handlePushBatch 7 (str "/f") oneFileRoots oneFileEntries (framesBytes twoChunks))).1 rootPaths := by
  have hvalid : ∀ f ∈ twoChunks, f.Valid := by
    simp only [twoChunks, List.forall_mem_cons, List.not_mem_nil, false_imp_iff, implies_true, and_true]
    exact ⟨mkFrame_valid (by decide), mkFrame_valid (by decide), mkFrame_valid (by decide)⟩
  have hreturned : (follow obliging
      (Daemon.handlePushBatch 7 (str "/f") oneFileRoots oneFileEntries (framesBytes twoChunks))).2 =
        .returned (.pushBatchComplete 1 2) := by rfl
  have h := (receivers_accept twoChunks hvalid oneFileRoots oneFileEntries (str "/f")).1 7 _ _ (exec_follow obliging _)
  rw [hreturned] at h
  rcases h (fun h => by cases h) with ⟨err, herr⟩ | ⟨haccepted, _⟩
  · cases herr
  · exact ⟨hreturned, haccepted⟩

end Rsdb
