/-
# The daemon's `fs.write`

`handle_fs_write` decodes the content, looks at what is there, checks what the
request asks for, and writes the file itself or one beside it that is then
renamed. The base64 engine, the digest and the clock are parameters (`FsEnv`).

A request is refused by its checks before the file is touched
(`fsWriteChecks_readsOnly`).
-/
import Rsdb.Lib.Utf8
import Rsdb.Daemon.FsStat
import Rsdb.Os.Removal

namespace Rsdb

open Prog (run run_bind_ok run_ofExcept All all_bind all_ask_bind)

namespace Act

/-- A file is made where nothing is. -/
def createNew (p : Path) (mode : ℕ) : Act (Except IoError ℕ) := Prog.ask (Call.createNew p mode)

/-- `fs::rename`. -/
def rename (source destination : Path) : Act (Except IoError Unit) := Prog.ask (Call.rename source destination)

/-- `fs::remove_file`. -/
def unlink (p : Path) : Act (Except IoError Unit) := Prog.ask (Call.unlink p)

end Act

namespace Daemon

/-- `MAX_AGENT_FS_BYTES`. -/
def maxAgentFsBytes : ℕ := 4 * 1024 * 1024

/-- The standard base64 engine; a text it refuses gives a message. -/
structure Base64 where
  encode : Bytes → Str
  decode : Str → Except Str Bytes

/-- What the handlers use besides the filesystem: the digest, the base64 engine
and the clock, bounds on the reads of a file and the levels of a tree, and the
times of the files. -/
structure FsEnv where
  sha256 : Bytes → Str
  base64 : Base64
  nonce : ℕ
  reads : ℕ
  depth : ℕ
  mtimeUnixMs : Path → Option ℕ

/-- The arguments of `handle_fs_write`. -/
structure FsWrite where
  path : Str
  content : Str
  encoding : ContentEncoding
  mode : Option ℕ
  createParent : Bool
  atomic : Bool
  ifMissing : Bool
  ifSha256 : Option Str

section

variable (env : FsEnv)

/-- The bytes a message carries. -/
def decodeFsContent (content : Str) : ContentEncoding → Except AnyhowError Bytes
  | .utf8 => .ok content
  | .base64 =>
    match env.base64.decode content with
    | .ok bytes => .ok bytes
    | .error message => .error (invalidRequest (str "invalid base64 content: " ++ message))

/-- The mode a new file is opened with; the standard library's is 0666. -/
def openMode (mode : Option ℕ) : ℕ := mode.elim 0o666 normalizeMode

/-- `set_permissions`, if there is a mode. -/
def setMode (path : Path) : Option ℕ → Act Unit
  | none => pure ()
  | some mode => do
    Act.ioContext (str "failed to set permissions on " ++ path.display) (← Act.chmod path (normalizeMode mode))

/-- The file is emptied, written, and given its bits. -/
def writeDirectFile (path : Path) (bytes : Bytes) (mode : Option ℕ) : Act Unit := do
  let fd ← Act.ioContext (str "failed to open " ++ path.display) (← Act.openWrite path (openMode mode))
  Act.io (← Act.write fd bytes)
  setMode path mode

/-- The name beside the path, with the clock in it; a name that is no text is not used. -/
def atomicTempPath (path : Path) : Path :=
  let parent := (path.parent.filter fun parent => !parent.isEmpty).getD .here
  let fileName := (path.fileName.filter fun name => isUtf8 name.1).elim (str "rsdb-temp") Subtype.val
  parent.join (Path.ofStr (str "." ++ fileName ++ str ".rsdb-tmp-" ++ decimal env.nonce))

/-- `write_atomic_file` up to the removal of what it leaves behind. -/
def writeThenRename (tempPath path : Path) (bytes : Bytes) (mode : Option ℕ) : Act Unit := do
  let fd ← Act.ioContext (str "failed to open " ++ tempPath.display) (← Act.createNew tempPath (openMode mode))
  Act.io (← Act.write fd bytes)
  setMode tempPath mode
  Act.ioContext (str "failed to rename " ++ tempPath.display ++ str " to " ++ path.display)
    (← Act.rename tempPath path)

/-- The bytes are written beside the file and renamed to it; what was written is removed if that
fails. -/
def writeAtomicFile (path : Path) (bytes : Bytes) (mode : Option ℕ) : Act Unit := do
  let tempPath := atomicTempPath env path
  match ← (Prog.attempt (writeThenRename tempPath path bytes mode) : Act (Except AnyhowError Unit)) with
  | .ok () => pure ()
  | .error err => do
    let _ ← Act.unlink tempPath
    .fail err

/-- The parent is created if it is asked for. -/
def createParentDir (path : Path) (createParent : Bool) : Act Unit :=
  match path.parent with
  | none => pure ()
  | some parent =>
    if !parent.isEmpty && createParent then do
      Act.ioContext (str "failed to create " ++ parent.display) (← Act.createDirAll parent)
    else pure ()

/-- The digest of what is there, if `if_sha256` asks for one, which has to be it. -/
def checkSha256 (path : Path) (existing : Option Metadata) : Option Str → Act (Option Str)
  | none => pure none
  | some expected =>
    match existing with
    | none => .fail (preconditionFailed (str "path does not exist: " ++ path.display))
    | some metadata =>
      if metadata.isFile = false then
        .fail (preconditionFailed (str "path is not a regular file: " ++ path.display))
      else do
        let actual ← sha256Path env.sha256 env.reads path
        if actual ≠ expected then
          .fail (preconditionFailed (str "sha256 precondition failed for " ++ path.display))
        else pure (some actual)

/-- Whether the content is another one than what is there. -/
def isChanged (path : Path) (bytes : Bytes) (existing : Option Metadata) (previous : Option Str) : Act Bool :=
  match existing.filter Metadata.isFile with
  | none => pure true
  | some metadata =>
    if metadata.size ≠ bytes.length then pure true
    else
      match previous with
      | some digest => pure (digest ≠ env.sha256 bytes)
      | none => do
        let digest ← sha256Path env.sha256 env.reads path
        pure (digest ≠ env.sha256 bytes)

/-- What `handle_fs_write` looks at before it writes: whether the content is a
change. -/
def fsWriteChecks (request : FsWrite) (path : Path) (bytes : Bytes) : Act Bool := do
  let existing ← existingMetadata path
  if existing.any Metadata.isDir then .fail (invalidRequest (str "path is a directory: " ++ path.display))
  else if request.ifMissing ∧ existing.isSome then
    .fail (preconditionFailed (str "path already exists: " ++ path.display))
  else do
    let previous ← checkSha256 env path existing request.ifSha256
    isChanged env path bytes existing previous

/-- The checks, from what is at the path on. -/
def fsWriteChecksOn (request : FsWrite) (path : Path) (bytes : Bytes) (existing : Option Metadata) : Act Bool :=
  if existing.any Metadata.isDir then .fail (invalidRequest (str "path is a directory: " ++ path.display))
  else if request.ifMissing ∧ existing.isSome then
    .fail (preconditionFailed (str "path already exists: " ++ path.display))
  else do
    let previous ← checkSha256 env path existing request.ifSha256
    isChanged env path bytes existing previous

theorem fsWriteChecks_eq (request : FsWrite) (path : Path) (bytes : Bytes) :
    fsWriteChecks env request path bytes =
      existingMetadata path >>= fsWriteChecksOn env request path bytes := rfl

/-- The mode after the write, if it can be seen. -/
def finalMode (path : Path) : Act (Option ℕ) := do
  match ← Act.lstat path with
  | .ok metadata => pure (some (metadata.mode &&& 0o7777))
  | .error _ => pure none

/-- `fs.write`: the checks, the guard, and one of the two ways to write. -/
def handleFsWrite (request : FsWrite) : Act AgentFsWriteResult := do
  let path ← .ofExcept (validateFsPath request.path)
  let bytes ← .ofExcept (decodeFsContent env request.content request.encoding)
  if bytes.length > maxAgentFsBytes then
    .fail (invalidRequest (str "write exceeds maximum payload of " ++ decimal maxAgentFsBytes ++ str " bytes"))
  else do
    createParentDir path request.createParent
    let changed ← fsWriteChecks env request path bytes
    if request.atomic then writeAtomicFile env path bytes request.mode
    else writeDirectFile path bytes request.mode
    let mode ← finalMode path
    pure ⟨path.display, bytes.length, mode, some (env.sha256 bytes), changed⟩

/-! ### A refused write -/

theorem all_ioContext {α : Type} (context : Str) (result : Except IoError α) :
    All Call.ReadsOnly (Act.ioContext context result) := by cases result <;> trivial

theorem all_io {α : Type} (result : Except IoError α) : All Call.ReadsOnly (Act.io result) := by
  cases result <;> trivial

theorem readToEnd_readsOnly (fd : ℕ) : ∀ (fuel : ℕ) (content : Bytes),
    All Call.ReadsOnly (Act.readToEnd fd fuel content)
  | 0, _ => trivial
  | fuel + 1, content => by
    refine all_ask_bind.mpr ⟨trivial, fun reply => all_bind.mpr ⟨all_io reply, fun data _ => ?_⟩⟩
    split
    · trivial
    · exact readToEnd_readsOnly fd fuel _

theorem sha256Path_readsOnly (sha256 : Bytes → Str) (fuel : ℕ) (path : Path) :
    All Call.ReadsOnly (sha256Path sha256 fuel path) := by
  refine all_ask_bind.mpr ⟨trivial, fun reply => all_bind.mpr ⟨all_ioContext _ reply, fun fd _ => ?_⟩⟩
  exact all_bind.mpr ⟨readToEnd_readsOnly fd fuel [], fun content _ => trivial⟩

theorem existingMetadata_readsOnly (path : Path) : All Call.ReadsOnly (existingMetadata path) := by
  refine ⟨trivial, fun reply => ?_⟩
  cases reply with
  | ok metadata => trivial
  | error err =>
    show All Call.ReadsOnly (if err.kind = .notFound then _ else _)
    split <;> trivial

theorem checkSha256_readsOnly (path : Path) (existing : Option Metadata) (expected : Option Str) :
    All Call.ReadsOnly (checkSha256 env path existing expected) := by
  cases expected with
  | none => trivial
  | some expected =>
    cases existing with
    | none => trivial
    | some metadata =>
      show All Call.ReadsOnly (if metadata.isFile = false then _ else _)
      split
      · trivial
      · refine all_bind.mpr ⟨sha256Path_readsOnly _ _ path, fun actual _ => ?_⟩
        split <;> trivial

theorem isChanged_readsOnly (path : Path) (bytes : Bytes) (existing : Option Metadata) (previous : Option Str) :
    All Call.ReadsOnly (isChanged env path bytes existing previous) := by
  unfold isChanged
  split
  · trivial
  · split
    · trivial
    · cases previous with
      | some digest => trivial
      | none => exact all_bind.mpr ⟨sha256Path_readsOnly _ _ path, fun digest _ => trivial⟩

theorem fsWriteChecksOn_readsOnly (request : FsWrite) (path : Path) (bytes : Bytes) (existing : Option Metadata) :
    All Call.ReadsOnly (fsWriteChecksOn env request path bytes existing) := by
  unfold fsWriteChecksOn
  split
  · trivial
  split
  · trivial
  · refine all_bind.mpr ⟨checkSha256_readsOnly env path existing _, fun previous _ => ?_⟩
    exact isChanged_readsOnly env path bytes existing previous

/-- The checks only look. -/
theorem fsWriteChecks_readsOnly (request : FsWrite) (path : Path) (bytes : Bytes) :
    All Call.ReadsOnly (fsWriteChecks env request path bytes) := by
  rw [fsWriteChecks_eq]
  refine all_bind.mpr ⟨existingMetadata_readsOnly path, fun existing _ => ?_⟩
  exact fsWriteChecksOn_readsOnly env request path bytes existing

/-! ### A guarded write -/

variable {env}

/-- A digest that is asked for and found is that of what the path leads to. -/
theorem checkSha256_found {path : Path} {existing : Option Metadata} {expected : Str} {previous : Option Str}
    {os os' : Os} (h : run Os.step (checkSha256 env path existing (some expected)) os = (.ok previous, os')) :
    previous = some expected ∧ existing.any Metadata.isFile = true ∧
      ∃ l mode content, os.lookup true path = .ok (l, .inl (.file mode content)) ∧ env.sha256 content = expected := by
  cases existing with
  | none => cases h
  | some metadata =>
    have hcheck : run Os.step (if metadata.isFile = false then
          (.fail (preconditionFailed (str "path is not a regular file: " ++ path.display)) : Act (Option Str))
        else do
          let actual ← sha256Path env.sha256 env.reads path
          if actual ≠ expected then
            .fail (preconditionFailed (str "sha256 precondition failed for " ++ path.display))
          else pure (some actual)) os = (.ok previous, os') := h
    split at hcheck
    · cases hcheck
    · rename_i hfile
      obtain ⟨actual, os₁, hrun, hactual⟩ := (run_bind_ok Os.step).mp hcheck
      obtain ⟨l, mode, content, hfollow, rfl⟩ := sha256Path_eq_ok hrun
      have hdigest : env.sha256 content = expected := by
        by_contra hne
        rw [if_pos hne] at hactual
        cases hactual
      rw [if_neg (not_not_intro hdigest)] at hactual
      obtain rfl := Except.ok.inj (Prod.mk.inj hactual).1
      exact ⟨congrArg some hdigest, Bool.eq_true_of_not_eq_false hfile, l, mode, content, hfollow, hdigest⟩

/-- A digest that is asked for and found is that of the file. -/
theorem checkSha256_eq_ok {path : Path} {existing : Option Metadata} {expected : Str} {previous : Option Str}
    {os os' : Os} (hexisting : run Os.step (existingMetadata path) os = (.ok existing, os))
    (h : run Os.step (checkSha256 env path existing (some expected)) os = (.ok previous, os')) :
    previous = some expected ∧ ∃ content, os.fileContent path = some content ∧ env.sha256 content = expected := by
  obtain ⟨hprevious, hfile, l, mode, content, hfollow, hdigest⟩ := checkSha256_found h
  obtain ⟨-, ⟨rfl, -⟩ | ⟨l', obj, rfl, hlookup⟩⟩ := existingMetadata_ok hexisting
  · cases hfile
  · obtain ⟨mode', content', rfl⟩ := Obj.of_isFile hfile
    obtain ⟨-, hsame⟩ := Prod.mk.inj (Except.ok.inj ((Os.lookup_of_file hlookup).symm.trans hfollow))
    cases hsame
    exact ⟨hprevious, content, Os.fileContent_eq_some.mpr ⟨l', mode, hlookup⟩, hdigest⟩

theorem createParentDir_false (path : Path) : createParentDir path false = .pure () := by
  unfold createParentDir
  cases path.parent with
  | none => rfl
  | some parent => simp

theorem run_createParentDir_false (path : Path) (os : Os) :
    run Os.step (createParentDir path false) os = (.ok (), os) := by
  rw [createParentDir_false]
  rfl

/-- A guarded write that succeeds has found the content it was guarded by. -/
theorem handleFsWrite_guarded {request : FsWrite} {expected : Str} {os os' : Os} {result : AgentFsWriteResult}
    (hguard : request.ifSha256 = some expected) (hparent : request.createParent = false)
    (h : run Os.step (handleFsWrite env request) os = (.ok result, os')) :
    ∃ content, os.fileContent (.ofStr request.path) = some content ∧ env.sha256 content = expected := by
  obtain ⟨path, os₁, hvalid, h⟩ := (run_bind_ok Os.step).mp h
  rw [run_ofExcept] at hvalid
  obtain ⟨hpath, rfl⟩ := Prod.mk.inj hvalid
  obtain rfl := validateFsPath_eq_ok hpath
  obtain ⟨bytes, os₂, hdecode, h⟩ := (run_bind_ok Os.step).mp h
  rw [run_ofExcept] at hdecode
  obtain ⟨-, rfl⟩ := Prod.mk.inj hdecode
  split at h
  · cases h
  · obtain ⟨_, os₃, hcreate, h⟩ := (run_bind_ok Os.step).mp h
    rw [hparent, run_createParentDir_false] at hcreate
    obtain ⟨-, rfl⟩ := Prod.mk.inj hcreate
    obtain ⟨changed, os₄, hchecks, -⟩ := (run_bind_ok Os.step).mp h
    obtain ⟨existing, os₅, hexisting, hrest⟩ := (run_bind_ok Os.step).mp hchecks
    obtain ⟨rfl, -⟩ := existingMetadata_ok hexisting
    split at hrest
    · cases hrest
    split at hrest
    · cases hrest
    · obtain ⟨previous, os₆, hcheck, -⟩ := (run_bind_ok Os.step).mp hrest
      rw [hguard] at hcheck
      exact (checkSha256_eq_ok hexisting hcheck).2

end

end Daemon

end Rsdb
