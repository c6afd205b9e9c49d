/-
# The daemon's other filesystem handlers

`handle_fs_list` walks a directory depth first, the children of each directory
in the order of their names, and never through a link; `handle_fs_read` reads a
regular file up to a limit; `handle_fs_mkdir` and `handle_fs_rm` create and
remove.

`fs.list` and `fs.read` only look (`handleFsList_readsOnly`,
`handleFsRead_readsOnly`).
-/
import Mathlib.Data.List.Sort
import Rsdb.Lib.Utf8
import Rsdb.Daemon.FsMove
import Rsdb.Daemon.FsWrite

namespace Rsdb

open Prog (All all_bind all_ask_bind all_ofExcept)

namespace Act

/-- The names in a directory. -/
def readDir (p : Path) : Act (Except IoError (List Name)) := Prog.ask (Call.readDir p)

/-- `read_to_end` of at most `remaining` bytes; `fuel` counts them too. -/
def readAtMost (fd : ℕ) : ℕ → ℕ → Bytes → Act Bytes
  | fuel + 1, remaining + 1, content => do
    let data ← io (← read fd (remaining + 1))
    if data = [] then pure content else readAtMost fd fuel (remaining + 1 - data.length) (content ++ data)
  | _, _, content => pure content

end Act

namespace Daemon

section

variable (env : FsEnv)

/-! ### `fs.list` -/

/-- The options of `fs.list`. -/
structure FsListing where
  recursive : Bool
  maxDepth : Option ℕ
  includeHidden : Bool
  hash : Option HashAlgorithm

/-- A name that is no text is not hidden. -/
def isHidden (name : Name) : Bool := isUtf8 name.1 && name.1.head? = some 46

/-- The entry of a path, with its digest if one is asked for. -/
def buildFsEntry (path : Path) (metadata : Metadata) (hash : Option HashAlgorithm) : Act AgentFsListEntry := do
  let digest ← hashOf env.sha256 env.reads path metadata hash
  pure ⟨utf8Lossy path.display, metadata.kind, metadata.size, digest⟩

/-- A listing goes on in a directory at this depth. -/
def FsListing.canDescend (listing : FsListing) (metadata : Metadata) (depth : ℕ) : Bool :=
  listing.recursive && metadata.isDir && listing.maxDepth.all fun limit => depth < limit

/-- The children of a directory at `depth` in turn; `collect` lists what is below one. -/
def collectChildren (listing : FsListing) (collect : Path → ℕ → Act (List AgentFsListEntry)) (path : Path) (depth : ℕ) :
    List Name → Act (List AgentFsListEntry)
  | [] => pure []
  | name :: names =>
    if isHidden name && !listing.includeHidden then collectChildren listing collect path depth names
    else do
      let child := path.push name
      let metadata ← Act.ioContext (str "failed to stat " ++ child.display) (← Act.lstat child)
      let entry ← buildFsEntry env child metadata listing.hash
      let below ← (if listing.canDescend metadata (depth + 1) then collect child (depth + 1) else pure [])
      let rest ← collectChildren listing collect path depth names
      pure (entry :: below ++ rest)

/-- `sort`. -/
def sorted {α : Type} [LinearOrder α] (names : List α) : List α := names.insertionSort (· ≤ ·)

/-- `levels` bounds the levels of directories. -/
def collectFsEntries (listing : FsListing) : ℕ → Path → ℕ → Act (List AgentFsListEntry)
  | 0, _, _ => Act.bail (str "too many levels of directories")
  | levels + 1, path, depth => do
    let names ← Act.ioContext (str "failed to read directory " ++ path.display) (← Act.readDir path)
    collectChildren env listing (collectFsEntries listing levels) path depth (sorted names)

/-- A directory is walked; anything else is its own entry. -/
def blockingFsList (listing : FsListing) (path : Path) : Act (List AgentFsListEntry) := do
  let metadata ← Act.ioContext (str "failed to stat " ++ path.display) (← Act.lstat path)
  if metadata.isDir then collectFsEntries env listing env.depth path 0
  else do
    let entry ← buildFsEntry env path metadata listing.hash
    pure [entry]

/-- `fs.list`. -/
def handleFsList (path : Str) (listing : FsListing) : Act (List AgentFsListEntry) := do
  let requested ← .ofExcept (validateFsPath path)
  blockingFsList env listing requested

/-! ### `fs.read` -/

/-- The content of a file as a message carries it. -/
def encodeFsContent (bytes : Bytes) : ContentEncoding → Except AnyhowError Str
  | .utf8 => if isUtf8 bytes then .ok bytes else .error (invalidRequest (str "file is not valid UTF-8"))
  | .base64 => .ok (env.base64.encode bytes)

/-- How much is read at most. -/
def readLimit (maxBytes : Option ℕ) : ℕ := min (maxBytes.getD maxAgentFsBytes) maxAgentFsBytes

/-- `fs.read`: the beginning of a file, and whether there is more. -/
def handleFsRead (path : Str) (encoding : ContentEncoding) (maxBytes : Option ℕ) : Act AgentFsReadResult := do
  let requested ← .ofExcept (validateFsPath path)
  let metadata ← Act.ioContext (str "failed to stat " ++ requested.display) (← Act.lstat requested)
  if metadata.isFile = false then .fail (invalidRequest (str "path is not a regular file: " ++ requested.display))
  else do
    let limit := readLimit maxBytes
    let fd ← Act.ioContext (str "failed to open " ++ requested.display) (← Act.openRead requested)
    let bytes ← Act.readAtMost fd (limit + 1) (limit + 1) []
    let content ← .ofExcept (encodeFsContent env (bytes.take limit) encoding)
    pure ⟨requested.display, encoding, content, (bytes.take limit).length, limit < bytes.length⟩

/-! ### `fs.mkdir` and `fs.rm` -/

/-- Whether the directory had to be created. -/
def createMissing (path : Path) (parents : Bool) : Option Metadata → Act Bool
  | some metadata =>
    if metadata.isDir then pure false
    else .fail (preconditionFailed (str "path exists and is not a directory: " ++ path.display))
  | none => do
    let made ← (if parents then Act.createDirAll path else Act.mkdir path)
    Act.ioContext (str "failed to create " ++ path.display) made
    pure true

/-- `fs.mkdir`: a directory is made where none is, and gets its bits. -/
def handleFsMkdir (path : Str) (parents : Bool) (mode : Option ℕ) : Act AgentFsMkdirResult := do
  let requested ← .ofExcept (validateFsPath path)
  let existing ← existingMetadata requested
  let created ← createMissing requested parents existing
  setMode requested mode
  pure ⟨requested.display, created⟩

/-- What `fs.rm` does to what is there. -/
def removeFor (recursive : Bool) (path : Path) (metadata : Metadata) : IoAct Unit :=
  if metadata.isDir && !recursive then IoAct.call (.rmdir path) else removePath env.depth path metadata

/-- `fs.rm`: what is at a path is removed, a directory with all it has only if that is asked
for. -/
def handleFsRm (path : Str) (recursive force ifExists : Bool) : Act AgentFsRmResult := do
  let requested ← .ofExcept (validateFsPath path)
  match ← Act.lstat requested with
  | .ok metadata => do
    Act.ioContext (str "failed to remove " ++ requested.display)
      (← (Prog.attempt (removeFor env recursive requested metadata) : Act (Except IoError Unit)))
    pure ⟨requested.display, true⟩
  | .error err =>
    if err.kind = .notFound ∧ (force || ifExists) = true then pure ⟨requested.display, false⟩
    else .fail ((AnyhowError.ofIo err).context (str "failed to stat " ++ requested.display))

/-! ### Looking only -/

theorem hashOf_readsOnly (path : Path) (metadata : Metadata) (hash : Option HashAlgorithm) :
    All Call.ReadsOnly (hashOf env.sha256 env.reads path metadata hash) := by
  match hash with
  | none => trivial
  | some .sha256 =>
    show All Call.ReadsOnly (if metadata.isFile then _ else _)
    split
    · exact all_bind.mpr ⟨sha256Path_readsOnly _ _ path, fun digest _ => trivial⟩
    · trivial

theorem buildFsEntry_readsOnly (path : Path) (metadata : Metadata) (hash : Option HashAlgorithm) :
    All Call.ReadsOnly (buildFsEntry env path metadata hash) :=
  all_bind.mpr ⟨hashOf_readsOnly env path metadata hash, fun _ _ => trivial⟩

theorem collectChildren_readsOnly {listing : FsListing} {collect : Path → ℕ → Act (List AgentFsListEntry)}
    (hcollect : ∀ path depth, All Call.ReadsOnly (collect path depth)) (path : Path) (depth : ℕ) :
    ∀ names : List Name, All Call.ReadsOnly (collectChildren env listing collect path depth names)
  | [] => trivial
  | name :: names => by
    have ih : All Call.ReadsOnly (collectChildren env listing collect path depth names) :=
      collectChildren_readsOnly hcollect path depth names
    rw [collectChildren]
    split
    · exact ih
    · refine all_ask_bind.mpr ⟨trivial, fun reply => all_bind.mpr ⟨all_ioContext _ reply, fun metadata _ => ?_⟩⟩
      refine all_bind.mpr ⟨buildFsEntry_readsOnly env _ metadata _, fun entry _ => all_bind.mpr ⟨?_, fun below _ => ?_⟩⟩
      · split
        · exact hcollect _ _
        · trivial
      · exact all_bind.mpr ⟨ih, fun _ _ => trivial⟩

theorem collectFsEntries_readsOnly (listing : FsListing) : ∀ (levels : ℕ) (path : Path) (depth : ℕ),
    All Call.ReadsOnly (collectFsEntries env listing levels path depth)
  | 0, _, _ => trivial
  | levels + 1, path, depth => by
    refine all_ask_bind.mpr ⟨trivial, fun reply => all_bind.mpr ⟨all_ioContext _ reply, fun names _ => ?_⟩⟩
    exact collectChildren_readsOnly env (collectFsEntries_readsOnly listing levels) path depth _

theorem handleFsList_readsOnly (path : Str) (listing : FsListing) :
    All Call.ReadsOnly (handleFsList env path listing) := by
  refine all_bind.mpr ⟨all_ofExcept _, fun requested _ => ?_⟩
  refine all_ask_bind.mpr ⟨trivial, fun reply => all_bind.mpr ⟨all_ioContext _ reply, fun metadata _ => ?_⟩⟩
  split
  · exact collectFsEntries_readsOnly env listing env.depth requested 0
  · exact all_bind.mpr ⟨buildFsEntry_readsOnly env requested metadata _, fun _ _ => trivial⟩

theorem readAtMost_readsOnly (fd : ℕ) : ∀ (fuel remaining : ℕ) (content : Bytes),
    All Call.ReadsOnly (Act.readAtMost fd fuel remaining content)
  | 0, _, _ => trivial
  | _ + 1, 0, _ => trivial
  | fuel + 1, remaining + 1, content => by
    refine all_ask_bind.mpr ⟨trivial, fun reply => all_bind.mpr ⟨all_io reply, fun data _ => ?_⟩⟩
    split
    · trivial
    · exact readAtMost_readsOnly fd fuel _ _

theorem handleFsRead_readsOnly (path : Str) (encoding : ContentEncoding) (maxBytes : Option ℕ) :
    All Call.ReadsOnly (handleFsRead env path encoding maxBytes) := by
  refine all_bind.mpr ⟨all_ofExcept _, fun requested _ => ?_⟩
  refine all_ask_bind.mpr ⟨trivial, fun reply => all_bind.mpr ⟨all_ioContext _ reply, fun metadata _ => ?_⟩⟩
  split
  · trivial
  · refine all_ask_bind.mpr ⟨trivial, fun reply => all_bind.mpr ⟨all_ioContext _ reply, fun fd _ => ?_⟩⟩
    refine all_bind.mpr ⟨readAtMost_readsOnly fd _ _ [], fun bytes _ => ?_⟩
    exact all_bind.mpr ⟨all_ofExcept _, fun _ _ => trivial⟩

theorem handleFsStat_readsOnly (path : Str) (hash : Option HashAlgorithm) :
    All Call.ReadsOnly (handleFsStat env.sha256 env.reads env.mtimeUnixMs path hash) := by
  refine all_bind.mpr ⟨all_ofExcept _, fun requested _ => all_ask_bind.mpr ⟨trivial, fun reply => ?_⟩⟩
  cases reply with
  | ok metadata => exact all_bind.mpr ⟨hashOf_readsOnly env requested metadata hash, fun _ _ => trivial⟩
  | error err =>
    show All Call.ReadsOnly (if err.kind = .notFound then _ else _)
    split <;> trivial

end

end Daemon

end Rsdb
