/-
# Receiving a batch

`handle_push_batch` of the daemon and `receive_local_batch` of the client fill a
destination from the same kind of manifest and the same kind of file stream:
both resolve the root paths, go through the entries in order, create each
directory and each file under its root, read a file's bytes from stream frames,
and expect an eof frame at the end. They differ in their texts, in the request
id they expect, and in the permission bits a file ends with (`Receiver`).

The connection is the bytes that are left of it. A file is read until its size
is reached; every frame takes at least a header off the connection, so the
length of what is left bounds the number of reads.
-/
import Rsdb.Os.Fs
import Rsdb.Transfer.Stream

namespace Rsdb

open Prog (All all_bind)

/-! ### Calls, with their answers -/

namespace Act

/-- `metadata`: the links are followed. -/
def stat (p : Path) : Act (Except IoError Metadata) := Prog.ask (Call.stat p)

/-- `symlink_metadata`: a link at the end is not followed. -/
def lstat (p : Path) : Act (Except IoError Metadata) := Prog.ask (Call.lstat p)

/-- `create_dir`. -/
def mkdir (p : Path) : Act (Except IoError Unit) := Prog.ask (Call.mkdir p)

/-- `File::create`, with the bits a new file gets. -/
def openWrite (p : Path) (mode : ℕ) : Act (Except IoError ℕ) := Prog.ask (Call.openWrite p mode)

/-- `write_all` of one piece. -/
def write (fd : ℕ) (data : Bytes) : Act (Except IoError Unit) := Prog.ask (Call.write fd data)

/-- `set_permissions`. -/
def chmod (p : Path) (mode : ℕ) : Act (Except IoError Unit) := Prog.ask (Call.chmod p mode)

/-- `?` on an I/O result. -/
def io {α : Type} : Except IoError α → Act α
  | .ok a => pure a
  | .error err => .fail (.ofIo err)

/-- `with_context` and `?` on an I/O result. -/
def ioContext {α : Type} (context : Str) : Except IoError α → Act α
  | .ok a => pure a
  | .error err => .fail ((AnyhowError.ofIo err).context context)

/-- The run fails with a message. -/
def bail {α : Type} (message : Str) : Act α := .fail (.bail message)

/-- `is_dir`. -/
def isDir (p : Path) : Act Bool := do
  match ← stat p with
  | .ok m => pure m.isDir
  | .error _ => pure false

/-- What `create_dir_all` says where there is no path above to make. -/
def wholeTree : IoError := ⟨.other, str "failed to create whole tree"⟩

/-- An error that does not count where the directory is there all the same. -/
def okIfDir (p : Path) (err : IoError) : Act (Except IoError Unit) := do
  if ← isDir p then pure (.ok ()) else pure (.error err)

/-- `create_dir_all` on a path and its parents, innermost first. -/
def createDirs : List Path → Act (Except IoError Unit)
  | [] => pure (.ok ())
  | p :: parents => do
    match ← mkdir p with
    | .ok () => pure (.ok ())
    | .error err =>
      if err.kind ≠ .notFound then okIfDir p err
      else if p.parent = none then pure (.error wholeTree)
      else
        match ← createDirs parents with
        | .error err => pure (.error err)
        | .ok () =>
          match ← mkdir p with
          | .ok () => pure (.ok ())
          | .error err => okIfDir p err

/-- `create_dir_all`: the path and the ones above it, from the outermost that is missing on. -/
def createDirAll (p : Path) : Act (Except IoError Unit) := createDirs p.ancestors

end Act

/-- What `create_dir_all` calls. -/
def Call.MakesDirs : Call → Prop
  | .mkdir _ | .stat _ => True
  | _ => False

theorem makesDirs_okIfDir (p : Path) (err : IoError) : All Call.MakesDirs (Act.okIfDir p err) := by
  refine all_bind.mpr ⟨⟨trivial, fun answer => ?_⟩, fun isDir _ => ?_⟩
  · cases answer <;> trivial
  · cases isDir <;> trivial

theorem makesDirs_createDirs : ∀ ps : List Path, All Call.MakesDirs (Act.createDirs ps)
  | [] => trivial
  | p :: parents => by
    refine ⟨trivial, fun answer => ?_⟩
    cases answer with
    | ok u => trivial
    | error err =>
      show All Call.MakesDirs (if err.kind ≠ .notFound then _ else _)
      split
      · exact makesDirs_okIfDir p err
      split
      · trivial
      refine all_bind.mpr ⟨makesDirs_createDirs parents, fun made _ => ?_⟩
      cases made with
      | error err => trivial
      | ok u =>
        refine ⟨trivial, fun answer => ?_⟩
        cases answer with
        | ok u => trivial
        | error err => exact makesDirs_okIfDir p err

/-! ### The root paths -/

/-- The bits a received file is opened with. -/
def normalizeMode (mode : ℕ) : ℕ := if mode &&& 0o7777 = 0 then 0o644 else mode &&& 0o7777

/-- The first root whose name an earlier one has, with the earlier one. -/
def duplicateRoot (seen : List TransferRoot) : List TransferRoot → Option (TransferRoot × TransferRoot)
  | [] => none
  | root :: roots =>
    match seen.find? fun r => r.sourceName = root.sourceName with
    | some previous => some (previous, root)
    | none => duplicateRoot (root :: seen) roots

/-- Distinct names are accepted. -/
theorem duplicateRoot_eq_none : ∀ {roots seen : List TransferRoot}, (roots.map TransferRoot.sourceName).Nodup →
    (∀ r ∈ seen, ∀ r' ∈ roots, r.sourceName ≠ r'.sourceName) → duplicateRoot seen roots = none
  | [], _, _, _ => rfl
  | root :: roots, seen, hnd, hseen => by
    rw [List.map_cons, List.nodup_cons] at hnd
    have hfind : (seen.find? fun r => r.sourceName = root.sourceName) = none := by
      rw [List.find?_eq_none]
      intro r hr
      simpa using hseen r hr root List.mem_cons_self
    rw [duplicateRoot, hfind]
    refine duplicateRoot_eq_none hnd.2 fun r hr r' hr' => ?_
    rcases List.mem_cons.mp hr with rfl | hr
    · exact fun heq => hnd.1 (heq ▸ List.mem_map_of_mem hr')
    · exact hseen r hr r' (List.mem_cons_of_mem _ hr')

/-- `source_name` under a destination. -/
def TransferRoot.under (destination : Path) (root : TransferRoot) : Path :=
  destination.join (Path.ofStr root.sourceName)

/-- A source name that is a single name is one component more. -/
theorem TransferRoot.under_of_name (destination : Path) {root : TransferRoot} {name : Name}
    (hname : Path.ofStr root.sourceName = Path.ofNames [name]) :
    (root.under destination).abs = destination.abs ∧
      (root.under destination).comps = destination.comps ++ [.normal name] := by
  rw [TransferRoot.under, hname, Path.join_ofNames destination (List.cons_ne_nil name [])]
  exact Path.comps_push [name] destination

/-- The root paths once it is known whether the destination is there, and is a
directory: one root takes the destination itself unless that is a directory or
ends in a slash, several go under it. -/
def rootPathsAt (notDirectory : Str) (destination : Path) (trailing : Bool) (isDir : Option Bool)
    (roots : List TransferRoot) : Except AnyhowError (List Path) :=
  match roots with
  | [root] => .ok [if isDir = some true ∨ trailing = true then root.under destination else destination]
  | roots =>
    if isDir = some false then .error (.bail notDirectory)
    else .ok (roots.map (TransferRoot.under destination))

/-- What the two resolvers do after their checks. -/
def resolveRoots (statContext notDirectory : Str) (destination : Path) (trailing : Bool)
    (roots : List TransferRoot) : Act (List Path) := do
  match ← Act.stat destination with
  | .ok m => .ofExcept (rootPathsAt notDirectory destination trailing (some m.isDir) roots)
  | .error err =>
    if err.kind = .notFound then .ofExcept (rootPathsAt notDirectory destination trailing none roots)
    else .fail ((AnyhowError.ofIo err).context statContext)

/-- A destination that has to be a directory. -/
def endsWithSlash (s : Str) : Bool := s.getLast? = some slashByte

/-- A batch has at least one root. -/
def noRoots : AnyhowError := .bail (str "transfer manifest did not include any roots")

namespace Daemon

/-- No two roots have a name in common. -/
def ensureUniqueRootNames (roots : List TransferRoot) : Except AnyhowError Unit :=
  match duplicateRoot [] roots with
  | none => .ok ()
  | some (_, root) =>
    .error (.bail (str "duplicate transfer root name `" ++ root.sourceName ++ str "` is not supported"))

/-- Where the daemon puts the roots: into the destination, or one root as the destination. -/
def resolveBatchDestinationRoots (destination : Str) (roots : List TransferRoot) : Act (List Path) := do
  if roots = [] then .fail noRoots
  else
    .ofExcept (ensureUniqueRootNames roots)
    let destinationPath := Path.ofStr destination
    if destination = [] then Act.bail (str "remote path must not be empty")
    else
      resolveRoots (str "failed to stat remote destination " ++ destinationPath.display)
        (str "remote destination is not a directory: " ++ destination) destinationPath
        (endsWithSlash destination) roots

end Daemon

namespace Client

/-- The client's own copy of the check. -/
def ensureUniqueRootNames (roots : List TransferRoot) : Except AnyhowError Unit :=
  match duplicateRoot [] roots with
  | none => .ok ()
  | some (previous, root) =>
    .error (.bail (str "duplicate transfer root name `" ++ root.sourceName ++ str "` is not supported (" ++
      previous.kind.debug ++ str " and " ++ root.kind.debug ++ str ")"))

/-- Where the client puts the roots. -/
def resolveLocalBatchRoots (destination : Str) (roots : List TransferRoot) : Act (List Path) := do
  if roots = [] then .fail noRoots
  else
    .ofExcept (ensureUniqueRootNames roots)
    let destinationPath := Path.ofStr destination
    resolveRoots (str "failed to stat local destination " ++ destinationPath.display)
      (str "local destination is not a directory: " ++ destinationPath.display) destinationPath
      (endsWithSlash destination) roots

end Client

/-! ### The path of an entry -/

/-- The names of a path, if it is relative and has only names. -/
def plainNames : List Comp → Option (List Name)
  | [] => some []
  | .normal name :: cs => (plainNames cs).map (name :: ·)
  | _ :: _ => none

/-- The names a relative path is made of. -/
def relativeNames (relativePath : Str) : Option (List Name) :=
  if (Path.ofStr relativePath).abs then none else plainNames (Path.ofStr relativePath).comps

/-- The path of an entry below the path of its root. -/
def joinTransferRelativePath (base : Path) (relativePath : Str) : Except AnyhowError Path :=
  if relativePath = [] then .ok base
  else
    match relativeNames relativePath with
    | some names => .ok (names.foldl Path.push base)
    | none => .error (.bail (str "invalid transfer path: " ++ relativePath))

/-- The file or directory an entry is received as. -/
def resolveTransferEntryPath (rootPaths : List Path) (entry : TransferEntry) : Except AnyhowError Path :=
  match rootPaths[entry.rootIndex]? with
  | none => .error (.bail (str "invalid transfer root index " ++ decimal entry.rootIndex))
  | some root => joinTransferRelativePath root entry.relativePath

theorem resolveTransferEntryPath_eq_ok {rootPaths : List Path} {entry : TransferEntry} {p : Path} :
    resolveTransferEntryPath rootPaths entry = .ok p ↔ ∃ root names, rootPaths[entry.rootIndex]? = some root ∧
      relativeNames entry.relativePath = some names ∧ names.foldl Path.push root = p := by
  unfold resolveTransferEntryPath joinTransferRelativePath
  cases rootPaths[entry.rootIndex]? with
  | none => simp
  | some root =>
    by_cases hrel : entry.relativePath = []
    · have hnil : relativeNames [] = some [] := rfl
      simp [hrel, hnil]
    · cases hn : relativeNames entry.relativePath with
      | none => simp [hrel]
      | some names => simp [hrel]

/-! ### The file stream -/

/-- What the two receivers do not share. -/
structure Receiver where
  requestId : UInt32
  contextName : Str
  requestIdMismatch : UInt32 → Str
  wrongChannel : StreamChannel → Str
  createContext : Path → Str
  openContext : Path → Str
  /-- The context of a failed write, where there is one. -/
  writeContext : Option (Path → Str)
  /-- The permission bits a file with a mode ends with. -/
  fileMode : ℕ → ℕ

namespace Receiver

variable (r : Receiver)

/-- The next frame of the file stream, its payload, and what is left of the
connection. The payload buffer is reused between calls, which no result shows
(`readFrameInto_buffer`), so each call is given an empty one. -/
def readFileStreamChunk (input : Bytes) : Except AnyhowError (StreamFrameHeader × Bytes × Bytes) :=
  match readStreamFrameInto input [] with
  | (.error err, _) =>
    .error ((AnyhowError.ofProtocol err).context (str "failed to read " ++ r.contextName ++ str " frame"))
  | (.ok chunk, input, payload) =>
    if chunk.requestId ≠ r.requestId then .error (.bail (r.requestIdMismatch chunk.requestId))
    else if chunk.channel ≠ .file then .error (.bail (r.wrongChannel chunk.channel))
    else .ok (chunk, payload, input)

/-- The frame of a read is a chunk. -/
theorem readFileStreamChunk_chunkFrame (c rest : Bytes) (hc : c.length ≤ maxPayloadLen) :
    r.readFileStreamChunk ((chunkFrame r.requestId c).bytes ++ rest) =
      .ok (⟨r.requestId, .file, false⟩, c, rest) := by
  have hv : (chunkFrame r.requestId c).Valid := mkFrame_valid hc
  have hdec : decodeStreamFrameHeader (chunkFrame r.requestId c).header = .ok ⟨r.requestId, .file, false⟩ :=
    decodeStreamFrameHeader_mkFrame r.requestId .file false c
  simp only [Receiver.readFileStreamChunk, readStreamFrameInto, readFrameInto_bytes hv, hdec]
  simp [chunkFrame, mkFrame]

/-- The stream ended before the file did. -/
def unexpectedEnd (path : Path) : AnyhowError :=
  .bail (str "unexpected end of " ++ r.contextName ++ str " stream while writing " ++ path.display)

/-- The stream brought more than the file's size. -/
def overflow (path : Path) : AnyhowError :=
  .bail (r.contextName ++ str " stream overflow while writing " ++ path.display)

/-- A write, with the context the receiver has for it, if any. -/
def ioWrite (path : Path) (result : Except IoError Unit) : Act Unit :=
  match r.writeContext with
  | none => Act.io result
  | some context => Act.ioContext (context path) result

/-- What reading from a connection that has ended fails with. -/
def endOfInput : AnyhowError :=
  (AnyhowError.ofProtocol (.io .unexpectedEof)).context (str "failed to read " ++ r.contextName ++ str " frame")

/-- A file is filled from the stream until `remaining` is zero; `bytes` counts
what has been written. `fuel` is the number of bytes left of the connection: at
zero the next read fails. -/
def receiveFile (path : Path) (fd : ℕ) : ℕ → ℕ → ℕ → Bytes → Act (ℕ × Bytes)
  | _, 0, bytes, input => pure (bytes, input)
  | 0, _ + 1, _, _ => .fail r.endOfInput
  | fuel + 1, remaining + 1, bytes, input =>
    match r.readFileStreamChunk input with
    | .error err => .fail err
    | .ok (chunk, payload, input) =>
      if chunk.eof then .fail (r.unexpectedEnd path)
      else if payload.length > remaining + 1 then .fail (r.overflow path)
      else if payload = [] then receiveFile path fd fuel (remaining + 1) bytes input
      else do
        r.ioWrite path (← Act.write fd payload)
        receiveFile path fd fuel (remaining + 1 - payload.length) (bytes + payload.length) input

/-- A directory with all above it. -/
def createDirectory (path : Path) : Act Unit := do
  Act.ioContext (r.createContext path) (← Act.createDirAll path)

/-- The directories a file is under. -/
def createParents (path : Path) : Act Unit :=
  match path.parent with
  | none => pure ()
  | some parent => if parent.isEmpty then pure () else r.createDirectory parent

/-- The permission bits of an entry that has some. -/
def setPermissions (path : Path) (entryMode mode : ℕ) : Act Unit :=
  if entryMode = 0 then pure ()
  else do Act.ioContext (str "failed to set permissions on " ++ path.display) (← Act.chmod path mode)

/-- A directory of the batch is made and gets its bits. -/
def receiveDirectory (path : Path) (entry : TransferEntry) : Act Unit := do
  r.createDirectory path
  setPermissions path entry.mode (entry.mode &&& 0o7777)

/-- A file of the batch is opened, written chunk by chunk and gets its bits. -/
def receiveRegular (path : Path) (entry : TransferEntry) (bytes : ℕ) (input : Bytes) : Act (ℕ × Bytes) := do
  r.createParents path
  let fd ← Act.ioContext (r.openContext path) (← Act.openWrite path (normalizeMode entry.mode))
  let (bytes, input) ← r.receiveFile path fd input.length entry.size bytes input
  setPermissions path entry.mode (r.fileMode entry.mode)
  pure (bytes, input)

/-- One entry, by its kind. -/
def receiveEntry (rootPaths : List Path) (entry : TransferEntry) (bytes : ℕ) (input : Bytes) :
    Act (ℕ × Bytes) := do
  let outputPath ← .ofExcept (resolveTransferEntryPath rootPaths entry)
  match entry.kind with
  | .directory => do
    r.receiveDirectory outputPath entry
    pure (bytes, input)
  | .file => r.receiveRegular outputPath entry bytes input

/-- The entries in order, counted. -/
def receiveEntries (rootPaths : List Path) : List TransferEntry → ℕ → ℕ → Bytes → Act (ℕ × ℕ × Bytes)
  | [], entries, bytes, input => pure (entries, bytes, input)
  | entry :: rest, entries, bytes, input => do
    let (bytes, input) ← r.receiveEntry rootPaths entry bytes input
    receiveEntries rootPaths rest (entries + 1) bytes input

/-- After the last entry comes the end of the stream and nothing else. -/
def expectFileStreamEof (input : Bytes) : Except AnyhowError Bytes :=
  match r.readFileStreamChunk input with
  | .error err => .error err
  | .ok (chunk, payload, input) =>
    if chunk.eof = false ∨ payload ≠ [] then
      .error (.bail (str "expected end of " ++ r.contextName ++ str " file stream"))
    else .ok input

/-- The entries, and the eof frame after them: how many entries and bytes, and
what is left of the connection. -/
def receiveBatch (rootPaths : List Path) (entries : List TransferEntry) (input : Bytes) :
    Act (ℕ × ℕ × Bytes) := do
  let (entriesDone, bytes, input) ← r.receiveEntries rootPaths entries 0 0 input
  let input ← .ofExcept (r.expectFileStreamEof input)
  pure (entriesDone, bytes, input)

end Receiver

/-! ### The two receivers -/

namespace Daemon

/-- The daemon as it receives a push. -/
def pushReceiver (requestId : UInt32) : Receiver where
  requestId := requestId
  contextName := str "push"
  requestIdMismatch actual :=
    str "stream frame request id mismatch: expected " ++ decimal requestId.toNat ++ str ", got " ++
      decimal actual.toNat
  wrongChannel channel := str "unexpected stream channel: expected File, got " ++ channel.debug
  createContext path := str "failed to create remote directory " ++ path.display
  openContext path := str "failed to open remote path for write: " ++ path.display
  writeContext := none
  fileMode := normalizeMode

/-- `handle_push_batch`, with what the client sends after the request. The
response `PushBatchReady` goes out when the root paths are known. -/
def handlePushBatch (requestId : UInt32) (destination : Str) (roots : List TransferRoot)
    (entries : List TransferEntry) (input : Bytes) : Act ControlResponse := do
  let rootPaths ← resolveBatchDestinationRoots destination roots
  let (entriesWritten, bytesWritten, _) ← (pushReceiver requestId).receiveBatch rootPaths entries input
  pure (.pushBatchComplete entriesWritten bytesWritten)

end Daemon

namespace Client

/-- The client numbers every request so. -/
def clientRequestId : UInt32 := 1

/-- The client as it receives a pull. -/
def pullReceiver : Receiver where
  requestId := clientRequestId
  contextName := str "pull"
  requestIdMismatch actual :=
    str "request id mismatch: expected " ++ decimal clientRequestId.toNat ++ str ", got " ++ decimal actual.toNat
  wrongChannel channel := str "unexpected stream channel during pull: " ++ channel.debug
  createContext path := str "failed to create local directory " ++ path.display
  openContext path := str "failed to open local output " ++ path.display
  writeContext := some fun path => str "failed to write " ++ path.display
  fileMode mode := mode &&& 0o7777

/-- The client receives a batch. -/
def receiveLocalBatch (destination : Str) (roots : List TransferRoot) (entries : List TransferEntry)
    (input : Bytes) : Act (ℕ × ℕ × Bytes) := do
  let rootPaths ← resolveLocalBatchRoots destination roots
  pullReceiver.receiveBatch rootPaths entries input

end Client

end Rsdb
