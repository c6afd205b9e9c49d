/-
# `rsdb edit`

`edit_command` looks at a remote file, fetches a copy of it into a directory of
its own, runs the editor on the copy, and saves what has changed: a file of up
to 4 MiB with one `FsWrite` that is guarded by the digest the first look gave, a
larger one with another look, which compares the digest, and then a push.

An edit is a program over requests to the daemon and over its own operating
system (`EditCall`). The daemon serves a request in one step, and before it does
the others do what they like to its filesystem (`EditSetting.others`).

A guarded write replaces what the first look has seen. A push replaces what is
there: `edit_safe_iff` says that an edit overwrites nobody's change exactly when
the file is the same for the push as it was for the look before it.
-/
import Rsdb.Daemon.Request
import Rsdb.Transfer.Pull

namespace Rsdb

open Prog (run run_call run_bind run_bind_ok run_ofExcept All all_bind all_ask_bind)
open Daemon (FsEnv FsWrite)

namespace Client

/-- `DEFAULT_INLINE_EDIT_MAX_BYTES`. -/
def defaultInlineEditMaxBytes : ℕ := 4 * 1024 * 1024

/-! ### The sources of a push -/

/-- What the client says of a source it cannot find. -/
def sourceErrors : SourceErrors where
  unreadable path e := (AnyhowError.ofIo e.toError).context (str "failed to stat local path " ++ path.display)
  noMatch spec := .bail (str "local pattern matched no paths: " ++ spec)
  missing path _ := .bail (str "local path does not exist: " ++ path.display)

/-- A source of a push. -/
def statSource (os : Os) (path : Path) : Except AnyhowError Source := sourceErrors.statSource os path

/-- The paths of one source of a push. -/
def expandSource (glob : Str → Except AnyhowError (List Path)) (os : Os) (spec : Str) : Except AnyhowError (List Path) :=
  sourceErrors.expandSource glob os spec

/-- `expand_local_sources`, and the trees there. -/
def expandLocalSources (glob : Str → Except AnyhowError (List Path)) (os : Os) (specs : List Str) :
    Except AnyhowError (List Source) := do
  let paths ← specs.mapM (expandSource glob os)
  paths.flatten.mapM (statSource os)

/-! ### What an edit does -/

namespace Edit

/-- The editor and its arguments. -/
structure EditorCommand where
  program : Str
  args : List Str

/-- A filesystem request, with what the daemon does for it. -/
structure FsRequest (env : FsEnv) where
  request : ControlRequest
  operation : Act ControlResponse
  known : Daemon.fsOperation env request = some operation

/-- A request to the daemon, a run of the editor, or a call of the client's own. -/
inductive EditCall (env : FsEnv) where
  | request (r : FsRequest env)
  | executePull (sources : List Str) (destination : Str)
  | executePush (sources : List Str) (remotePath : Str)
  | launchEditor (editor : EditorCommand) (path : Path)
  | host (c : Call)

/-- What a call of an edit can be answered with. -/
abbrev EditCall.Answer {env : FsEnv} : EditCall env → Type
  | request _ => Except AnyhowError ControlResponse
  | executePull _ _ => Except AnyhowError PullSummary
  | executePush _ _ => Except AnyhowError PushSummary
  | launchEditor _ _ => Except IoError (Option Int32)
  | host c => c.Answer

/-- A part of an edit, over its calls. -/
abbrev EditProg (env : FsEnv) (α : Type) := Prog (EditCall env) EditCall.Answer AnyhowError α

/-- What becomes of a request: it is served and answered, it does not reach the
daemon, or its answer does not reach the client. -/
inductive Delivery where
  | answered
  | lost (err : AnyhowError)
  | cut (err : AnyhowError)

/-- All that is around an edit. The numbers count the requests made before. -/
structure EditSetting where
  codec : Codec
  remoteGlob : Str → Except AnyhowError (List Path)
  localGlob : Str → Except AnyhowError (List Path)
  delivery : ℕ → Delivery
  /-- What the others do before a request is served. -/
  others : ℕ → Os → Os
  /-- How the files of a pull are read, and those of a push. -/
  pullRuns : ℕ → ReadRun
  pushRuns : ℕ → ReadRun
  runEditor : EditorCommand → Path → Os → Except IoError (Option Int32) × Os
  /-- What `resolve_editor_command` makes of the option and the environment. -/
  editor : Except AnyhowError EditorCommand
  /-- `temp_dir()` and the clock, and the bounds of reading a local file and removing the copy. -/
  tempDir : Path
  nonce : ℕ
  reads : ℕ
  depth : ℕ

/-- A request that was made, with the filesystem it found. -/
structure Asked (env : FsEnv) where
  call : EditCall env
  remote : Os

/-- Both sides, and the requests made so far. -/
structure EditWorld (env : FsEnv) where
  remote : Os
  host : Os
  asked : List (Asked env)

section

variable {env : FsEnv} (setting : EditSetting)

/-- What the client gets for a filesystem request. -/
def served (r : FsRequest env) (os : Os) : Except AnyhowError ControlResponse × Os :=
  match writeJsonFrame ([] : Bytes) .request clientRequestId (setting.codec.request r.request) with
  | (.error err, _) => (.error (err.context (str "failed to send request")), os)
  | (.ok (), _) =>
    let (result, os) := run Os.step r.operation os
    (.ok (Daemon.fsAnswer setting.codec.response result), os)

/-- A request: the others go first. -/
def EditWorld.ask {α : Type} (w : EditWorld env) (call : EditCall env)
    (serve : Os → Except AnyhowError α × Os) : Except AnyhowError α × EditWorld env :=
  let remote := setting.others w.asked.length w.remote
  let asked := w.asked ++ [⟨call, remote⟩]
  match setting.delivery w.asked.length with
  | .answered => ((serve remote).1, { w with remote := (serve remote).2, asked := asked })
  | .lost err => (.error err, { w with remote := remote, asked := asked })
  | .cut err => (.error err, { w with remote := (serve remote).2, asked := asked })

/-- A push of what the client has then. -/
def EditWorld.push (w : EditWorld env) (sources : List Str) (remotePath : Str) :
    Except AnyhowError PushSummary × EditWorld env :=
  match (expandLocalSources setting.localGlob w.host sources).bind buildLocalBatchManifest with
  | .error err => (.error err, w)
  | .ok manifest =>
    w.ask setting (.executePush sources remotePath) fun remote =>
      pushSession setting.codec remote manifest setting.pushRuns remotePath

/-- What a call comes to, and what is answered. -/
def editStep : (c : EditCall env) → EditWorld env → c.Answer × EditWorld env
  | .request r, w => w.ask setting (.request r) (served setting r)
  | .executePull sources destination, w =>
    let pulled (remote : Os) :=
      pullSession setting.codec setting.remoteGlob remote setting.pullRuns sources destination w.host
    let (result, w') := w.ask setting (.executePull sources destination) fun remote => ((pulled remote).1, remote)
    (result, { w' with host := (pulled w'.remote).2 })
  | .executePush sources remotePath, w => w.push setting sources remotePath
  | .launchEditor editor path, w =>
    let (status, host) := setting.runEditor editor path w.host
    (status, { w with host := host })
  | .host c, w =>
    let (reply, host) := Os.step c w.host
    (reply, { w with host := host })

/-- A program of the client's operating system. -/
def onHost {α : Type} : Act α → EditProg env α
  | .pure a => .pure a
  | .fail err => .fail err
  | .call c k => .call (.host c) fun reply => onHost (k reply)

/-! ### Requests -/

/-- A request whose failure ends the edit. -/
def request (r : FsRequest env) : EditProg env ControlResponse := do
  let answer ← Prog.ask (EditCall.request r)
  .ofExcept answer

/-- The stat of a path on the device. -/
def remoteFsStat (path : Str) (hash : Option HashAlgorithm) : EditProg env AgentFsStat := do
  match ← request ⟨.fsStat path hash, _, rfl⟩ with
  | .fsStat stat => pure stat
  | .error code message => .fail (remoteControlError code message)
  | other => .fail (unexpectedResponse setting.codec other)

/-- The content of a file on the device. -/
def remoteFsRead (path : Str) (encoding : ContentEncoding) (maxBytes : Option ℕ) :
    EditProg env AgentFsReadResult := do
  match ← request ⟨.fsRead path encoding maxBytes, _, rfl⟩ with
  | .fsReadResult result => pure result
  | .error code message => .fail (remoteControlError code message)
  | other => .fail (unexpectedResponse setting.codec other)

/-- A file on the device is written, with or without a guard. -/
def remoteFsWrite (path content : Str) (encoding : ContentEncoding) (mode : Option ℕ) (atomic : Bool)
    (ifSha256 : Option Str) : EditProg env AgentFsWriteResult := do
  match ← request ⟨.fsWrite path content encoding mode false atomic false ifSha256, _, rfl⟩ with
  | .fsWriteResult result => pure result
  | .error code message => .fail (remoteControlError code message)
  | other => .fail (unexpectedResponse setting.codec other)

/-! ### The copy -/

/-- The name of the local copy. -/
def remoteEditFileName (remotePath : Str) : Str :=
  (((Path.ofStr remotePath).fileName.map Subtype.val).filter fun name => !name.isEmpty).getD (str "rsdb-edit")

/-- A directory for the local copy. -/
def createEditTempDir : Act Path := do
  let path := setting.tempDir.join (Path.ofStr (str "rsdb-edit-" ++ decimal setting.nonce))
  Act.ioContext (str "failed to create temp dir " ++ path.display) (← Act.createDirAll path)
  pure path

/-- The directory is removed with the copy. -/
def removeEditTempDir (path : Path) : Act Unit := do
  Act.ioContext (str "failed to remove temp dir " ++ path.display)
    (← (Prog.attempt (IoAct.removeDirAll setting.depth path) : Act (Except IoError Unit)))

/-- A file is opened as a pull opens one. -/
def createLocalOutputFile (path : Path) (mode : ℕ) : Act ℕ := do
  pullReceiver.createParents path
  Act.ioContext (pullReceiver.openContext path) (← Act.openWrite path (normalizeMode mode))

/-- The local copy is written. -/
def writeLocalEditFile (path : Path) (bytes : Bytes) (mode : ℕ) : Act Unit := do
  let fd ← createLocalOutputFile path mode
  Act.ioContext (str "failed to write " ++ path.display) (← Act.write fd bytes)

variable (env)

/-- The digest of the local copy. -/
def sha256LocalPath (path : Path) : Act Str := Daemon.sha256Path env.sha256 setting.reads path

variable {env}

/-- `fs::read` of the edited copy. -/
def readEdited (path : Path) : Act Bytes := do
  let failed := str "failed to read edited file " ++ path.display
  let fd ← Act.ioContext failed (← Act.openRead path)
  Act.readToEnd fd setting.reads []

/-! ### The command -/

/-- What the first look at the file fixes. -/
structure EditSession where
  remotePath : Str
  remoteMode : ℕ
  originalRemoteSha256 : Str
  tempDir : Path
  localPath : Path
  inlineEdit : Bool

/-- `edit_command` up to the directory for the copy. -/
def openEdit (remotePath : Str) : EditProg env EditSession := do
  let stat ← remoteFsStat setting remotePath (some .sha256)
  if stat.present = false then .fail (.bail (str "remote path does not exist: " ++ remotePath))
  else if stat.kind ≠ some .file then .fail (.bail (str "remote path is not a regular file: " ++ remotePath))
  else
    match stat.sha256 with
    | none => .fail (.bail (str "remote stat did not include a sha256 for " ++ remotePath))
    | some digest => do
      let tempDir ← onHost (createEditTempDir setting)
      let localPath := tempDir.join (Path.ofStr (remoteEditFileName remotePath))
      pure ⟨remotePath, stat.mode.getD 0, digest, tempDir, localPath, stat.size.getD 0 ≤ defaultInlineEditMaxBytes⟩

/-- The copy is fetched. -/
def fetchCopy (session : EditSession) : EditProg env Unit :=
  if session.inlineEdit then do
    let result ← remoteFsRead setting session.remotePath .base64 none
    match env.base64.decode result.content with
    | .error message => .fail ((AnyhowError.bail message).context (str "failed to decode inline edit content"))
    | .ok bytes =>
      if result.truncated then
        .fail (.bail (str "remote file exceeded inline edit limit: " ++ session.remotePath))
      else onHost (writeLocalEditFile session.localPath bytes session.remoteMode)
  else do
    let answer ← Prog.ask (EditCall.executePull [session.remotePath] (utf8Lossy session.localPath.display))
    let _ ← .ofExcept answer
    pure ()

/-- The editor runs on the local copy. -/
def launchEditor (session : EditSession) : EditProg env (Option Int32) := do
  let editor ← .ofExcept setting.editor
  match ← Prog.ask (EditCall.launchEditor editor session.localPath) with
  | .ok status => pure status
  | .error err =>
    .fail ((AnyhowError.ofIo err).context (str "failed to launch editor \x60" ++ editor.program ++ str "\x60"))

/-- The copy is edited; whether it has changed. -/
def editCopy (session : EditSession) : EditProg env Bool := do
  let original ← onHost (sha256LocalPath env setting session.localPath)
  let status ← launchEditor setting session
  if status ≠ some 0 then
    .fail (.bail (str "editor exited with status " ++ jsonInt (Daemon.exitCode status) ++
      str "; kept local copy at " ++ session.localPath.display))
  else do
    let edited ← onHost (sha256LocalPath env setting session.localPath)
    pure (edited ≠ original)

/-- A save that fails says where the copy is. -/
def keepingCopy {α : Type} (session : EditSession) (save : EditProg env α) : EditProg env Unit := do
  match ← (Prog.attempt save : EditProg env (Except AnyhowError α)) with
  | .ok _ => pure ()
  | .error err => .fail (.bail (err.message ++ str "; kept local copy at " ++ session.localPath.display))

/-- The copy is saved. -/
def saveEdit (session : EditSession) : EditProg env Unit :=
  if session.inlineEdit then do
    let bytes ← onHost (readEdited setting session.localPath)
    keepingCopy session (remoteFsWrite setting session.remotePath (env.base64.encode bytes) .base64
      (some session.remoteMode) true (some session.originalRemoteSha256))
  else do
    let latest ← remoteFsStat setting session.remotePath (some .sha256)
    match latest.sha256 with
    | none =>
      .fail (.bail (str "remote stat did not include a sha256 for " ++ session.remotePath ++ str " during save"))
    | some digest =>
      if digest ≠ session.originalRemoteSha256 then
        .fail (.bail (str "remote file changed while editing " ++ session.remotePath ++
          str "; kept local copy at " ++ session.localPath.display))
      else
        keepingCopy session (do
          let answer ← Prog.ask (EditCall.executePush [utf8Lossy session.localPath.display] session.remotePath)
          .ofExcept answer)

/-- How an edit ends that has not failed. -/
inductive EditOutcome where
  | noChanges
  | updated
  deriving DecidableEq

/-- `edit_command` up to the save. -/
def beginEdit (remotePath : Str) : EditProg env (EditSession × Bool) := do
  let session ← openEdit setting remotePath
  fetchCopy setting session
  let changed ← editCopy setting session
  pure (session, changed)

/-- `edit_command` from the save on. -/
def finishEdit : EditSession × Bool → EditProg env EditOutcome
  | (session, false) => do
    onHost (removeEditTempDir setting session.tempDir)
    pure .noChanges
  | (session, true) => do
    saveEdit setting session
    onHost (removeEditTempDir setting session.tempDir)
    pure .updated

/-- `edit`: the file is fetched, edited and sent back. -/
def editCommand (remotePath : Str) : EditProg env EditOutcome :=
  beginEdit setting remotePath >>= finishEdit setting

/-! ### The client's own side -/

variable {setting}

theorem run_onHost {α : Type} : ∀ (x : Act α) (w : EditWorld env),
    run (editStep setting) (onHost x) w = ((run Os.step x w.host).1, { w with host := (run Os.step x w.host).2 })
  | .pure _, _ => rfl
  | .fail _, _ => rfl
  | .call c k, w => run_onHost (k (Os.step c w.host).1) { w with host := (Os.step c w.host).2 }

/-- The client's files stay as they are. -/
def EditCall.SparesHost : EditCall env → Prop
  | request _ | executePush _ _ => True
  | host c => c.ReadsOnly
  | executePull _ _ | launchEditor _ _ => False

theorem EditWorld.ask_host {α : Type} (w : EditWorld env) (call : EditCall env)
    (serve : Os → Except AnyhowError α × Os) : (w.ask setting call serve).2.host = w.host := by
  unfold EditWorld.ask
  split <;> rfl

theorem editStep_sparesHost {c : EditCall env} (h : c.SparesHost) (w : EditWorld env) :
    Os.SameTree w.host (editStep setting c w).2.host := by
  cases c with
  | request r =>
    show Os.SameTree w.host (w.ask setting (.request r) (served setting r)).2.host
    rw [EditWorld.ask_host]
    exact Os.SameTree.refl w.host
  | executePush sources remotePath =>
    show Os.SameTree w.host (w.push setting sources remotePath).2.host
    unfold EditWorld.push
    split
    · exact Os.SameTree.refl w.host
    · rw [EditWorld.ask_host]
      exact Os.SameTree.refl w.host
  | host c => exact Os.step_readsOnly h w.host
  | executePull _ _ | launchEditor _ _ => exact h.elim

theorem run_sparesHost {α : Type} : ∀ {x : EditProg env α}, All EditCall.SparesHost x → ∀ w : EditWorld env,
    Os.SameTree w.host (run (editStep setting) x w).2.host
  | .pure _, _, w => Os.SameTree.refl w.host
  | .fail _, _, w => Os.SameTree.refl w.host
  | .call _ _, h, w => (editStep_sparesHost h.1 w).trans (run_sparesHost (h.2 _) _)

theorem onHost_sparesHost {α : Type} : ∀ {x : Act α}, All Call.ReadsOnly x →
    All EditCall.SparesHost (onHost x : EditProg env α)
  | .pure _, _ => trivial
  | .fail _, _ => trivial
  | .call _ _, h => ⟨h.1, fun reply => onHost_sparesHost (h.2 reply)⟩

theorem request_sparesHost (r : FsRequest env) : All EditCall.SparesHost (request r) :=
  all_ask_bind.mpr ⟨trivial, fun _ => Prog.all_ofExcept _⟩

theorem remoteFsStat_sparesHost (path : Str) (hash : Option HashAlgorithm) :
    All EditCall.SparesHost (remoteFsStat setting path hash : EditProg env AgentFsStat) := by
  refine all_bind.mpr ⟨request_sparesHost _, fun response _ => ?_⟩
  split <;> trivial

theorem remoteFsWrite_sparesHost (path content : Str) (encoding : ContentEncoding) (mode : Option ℕ) (atomic : Bool)
    (ifSha256 : Option Str) : All EditCall.SparesHost
      (remoteFsWrite setting path content encoding mode atomic ifSha256 : EditProg env AgentFsWriteResult) := by
  refine all_bind.mpr ⟨request_sparesHost _, fun response _ => ?_⟩
  split <;> trivial

theorem keepingCopy_sparesHost {α : Type} {session : EditSession} {save : EditProg env α}
    (h : All EditCall.SparesHost save) : All EditCall.SparesHost (keepingCopy session save) := by
  refine all_bind.mpr ⟨Prog.all_attempt h, fun outcome _ => ?_⟩
  split <;> trivial

theorem readEdited_readsOnly (path : Path) : All Call.ReadsOnly (readEdited setting path) := by
  refine all_ask_bind.mpr ⟨trivial, fun reply => all_bind.mpr ⟨Daemon.all_ioContext _ reply, fun fd _ => ?_⟩⟩
  exact Daemon.readToEnd_readsOnly fd setting.reads []

/-- Saving leaves the copy as it is. -/
theorem saveEdit_sparesHost (session : EditSession) :
    All EditCall.SparesHost (saveEdit setting session : EditProg env Unit) := by
  unfold saveEdit
  split
  · refine all_bind.mpr ⟨onHost_sparesHost (readEdited_readsOnly session.localPath), fun bytes _ => ?_⟩
    exact keepingCopy_sparesHost (remoteFsWrite_sparesHost _ _ _ _ _ _)
  · refine all_bind.mpr ⟨remoteFsStat_sparesHost _ _, fun latest _ => ?_⟩
    split
    · trivial
    · split
      · trivial
      · exact keepingCopy_sparesHost (all_ask_bind.mpr ⟨trivial, fun _ => Prog.all_ofExcept _⟩)

/-! ### What a request found -/

/-- The digest of the file at a path. -/
def digestAt (env : FsEnv) (path : Str) (os : Os) : Option Str := (os.fileContent (.ofStr path)).map env.sha256

/-- The request overwrites the file at a path. -/
def EditCall.Saves (path : Str) : EditCall env → Prop
  | request r => ∃ content encoding mode createParent atomic ifMissing ifSha256,
      r.request = .fsWrite path content encoding mode createParent atomic ifMissing ifSha256
  | executePush _ remotePath => remotePath = path
  | _ => False

/-- The whole file is sent, with no guard. -/
def EditCall.IsPush : EditCall env → Prop
  | executePush _ _ => True
  | _ => False

theorem EditWorld.ask_ok {α : Type} {w w' : EditWorld env} {call : EditCall env}
    {serve : Os → Except AnyhowError α × Os} {a : α} (h : w.ask setting call serve = (.ok a, w')) :
    ∃ os, w'.asked = w.asked ++ [⟨call, os⟩] ∧ (serve os).1 = .ok a := by
  unfold EditWorld.ask at h
  split at h
  · obtain ⟨hresult, rfl⟩ := Prod.mk.inj h
    exact ⟨_, rfl, hresult⟩
  · cases h
  · cases h

/-- A request that is answered. -/
theorem request_ok {r : FsRequest env} {w w' : EditWorld env} {response : ControlResponse}
    (h : run (editStep setting) (request r) w = (.ok response, w')) :
    ∃ os, w'.asked = w.asked ++ [⟨.request r, os⟩] ∧
      response = Daemon.fsAnswer setting.codec.response (run Os.step r.operation os).1 := by
  obtain ⟨answer, t, hask, hanswer⟩ := (run_bind_ok (editStep setting)).mp h
  rw [run_ofExcept] at hanswer
  obtain ⟨rfl, rfl⟩ := Prod.mk.inj hanswer
  obtain ⟨hok, hworld⟩ := Prod.mk.inj hask
  have hasked : w.ask setting (.request r) (served setting r) = (.ok response, t) :=
    Prod.ext (Except.ok.inj hok) hworld
  obtain ⟨os, hlog, hserved⟩ := EditWorld.ask_ok hasked
  refine ⟨os, hlog, ?_⟩
  unfold served at hserved
  split at hserved
  · cases hserved
  · exact (Except.ok.inj hserved).symm

theorem remoteFsStat_ok {path : Str} {w w' : EditWorld env} {stat : AgentFsStat} {digest : Str}
    (h : run (editStep setting) (remoteFsStat setting path (some .sha256)) w = (.ok stat, w'))
    (hdigest : stat.sha256 = some digest) :
    ∃ look, w'.asked = w.asked ++ [look] ∧ digestAt env path look.remote = some digest := by
  obtain ⟨response, t, hrequest, hstat⟩ := (run_bind_ok (editStep setting)).mp h
  obtain ⟨os, hlog, hanswer⟩ := request_ok hrequest
  split at hstat
  · obtain ⟨hsame, rfl⟩ := Prod.mk.inj hstat
    obtain rfl := Except.ok.inj hsame
    refine ⟨_, hlog, ?_⟩
    obtain ⟨os', hrun⟩ := Daemon.run_of_fsAnswer hanswer.symm (fun _ _ h => by cases h)
    obtain ⟨found, hhandler, hfound⟩ := Daemon.run_responding hrun
    obtain rfl := ControlResponse.fsStat.inj hfound
    obtain ⟨content, hcontent, rfl⟩ := Daemon.handleFsStat_sha256 hhandler hdigest
    show (os.fileContent _).map env.sha256 = _
    rw [hcontent]
    rfl
  · cases hstat
  · cases hstat

/-- A guarded write that succeeds has found what it was guarded by. -/
theorem remoteFsWrite_ok {path content : Str} {encoding : ContentEncoding} {mode : Option ℕ} {atomic : Bool}
    {expected : Str} {w w' : EditWorld env} {result : AgentFsWriteResult}
    (h : run (editStep setting) (remoteFsWrite setting path content encoding mode atomic (some expected)) w =
      (.ok result, w')) :
    ∃ save, w'.asked = w.asked ++ [save] ∧ save.call.Saves path ∧ ¬ save.call.IsPush ∧
      digestAt env path save.remote = some expected := by
  obtain ⟨response, t, hrequest, hwrite⟩ := (run_bind_ok (editStep setting)).mp h
  obtain ⟨os, hlog, hanswer⟩ := request_ok hrequest
  split at hwrite
  · obtain ⟨-, rfl⟩ := Prod.mk.inj hwrite
    refine ⟨_, hlog, ⟨content, encoding, mode, false, atomic, false, some expected, rfl⟩, id, ?_⟩
    obtain ⟨os', hrun⟩ := Daemon.run_of_fsAnswer hanswer.symm (fun _ _ h => by cases h)
    obtain ⟨written, hhandler, -⟩ := Daemon.run_responding hrun
    obtain ⟨found, hfound, rfl⟩ := Daemon.handleFsWrite_guarded rfl rfl hhandler
    show (os.fileContent _).map env.sha256 = _
    rw [hfound]
    rfl
  · cases hwrite
  · cases hwrite

theorem executePush_ok {sources : List Str} {path : Str} {w w' : EditWorld env} {summary : PushSummary}
    (h : run (editStep setting) (Prog.ask (EditCall.executePush sources path) >>= fun answer => .ofExcept answer) w =
      (.ok summary, w')) :
    ∃ os, w'.asked = w.asked ++ [⟨.executePush sources path, os⟩] := by
  obtain ⟨answer, t, hask, hanswer⟩ := (run_bind_ok (editStep setting)).mp h
  rw [run_ofExcept] at hanswer
  obtain ⟨rfl, rfl⟩ := Prod.mk.inj hanswer
  obtain ⟨hok, hworld⟩ := Prod.mk.inj hask
  have hpush : w.push setting sources path = (.ok summary, t) := Prod.ext (Except.ok.inj hok) hworld
  unfold EditWorld.push at hpush
  split at hpush
  · cases hpush
  · obtain ⟨os, hlog, -⟩ := EditWorld.ask_ok hpush
    exact ⟨os, hlog⟩

theorem keepingCopy_ok {α : Type} {session : EditSession} {save : EditProg env α} {w w' : EditWorld env}
    (h : run (editStep setting) (keepingCopy session save) w = (.ok (), w')) :
    ∃ a, run (editStep setting) save w = (.ok a, w') := by
  obtain ⟨outcome, t, hattempt, hrest⟩ := (run_bind_ok (editStep setting)).mp h
  rw [Prog.run_attempt] at hattempt
  obtain ⟨houtcome, rfl⟩ := Prod.mk.inj hattempt
  split at hrest
  · rename_i a
    obtain ⟨-, rfl⟩ := Prod.mk.inj hrest
    exact ⟨a, Prod.ext (Except.ok.inj houtcome) rfl⟩
  · cases hrest

/-! ### What a save replaced -/

/-- The last request overwrites the file and has found it with this digest. -/
def Replaced (path digest : Str) (w : EditWorld env) : Prop :=
  ∃ save, w.asked.getLast? = some save ∧ save.call.Saves path ∧ digestAt env path save.remote = some digest

/-- The file is the same for a push at the end as for the request before it. -/
def Undisturbed (path : Str) (w : EditWorld env) : Prop :=
  ∀ earlier look push, w.asked = earlier ++ [look, push] → push.call.IsPush →
    digestAt env path push.remote = digestAt env path look.remote

theorem getLast?_of_two {w : EditWorld env} {earlier : List (Asked env)} {look push : Asked env}
    (h : w.asked = earlier ++ [look, push]) : w.asked.getLast? = some push := by
  rw [h, List.getLast?_append]
  rfl

/-- A save that succeeds replaces what the first look has seen exactly when
nobody comes between its last look and a push. -/
theorem saveEdit_ok {session : EditSession} {w w' : EditWorld env}
    (h : run (editStep setting) (saveEdit setting session) w = (.ok (), w')) :
    Replaced session.remotePath session.originalRemoteSha256 w' ↔ Undisturbed session.remotePath w' := by
  unfold saveEdit at h
  split at h
  · obtain ⟨bytes, t, hread, hsave⟩ := (run_bind_ok (editStep setting)).mp h
    obtain ⟨result, hwrite⟩ := keepingCopy_ok hsave
    obtain ⟨save, hlog, hsaves, hpush, hdigest⟩ := remoteFsWrite_ok hwrite
    have hlast : w'.asked.getLast? = some save := by rw [hlog, List.getLast?_concat]
    refine iff_of_true ⟨save, hlast, hsaves, hdigest⟩ fun earlier look push hasked hispush => ?_
    rw [getLast?_of_two hasked] at hlast
    exact absurd (Option.some.inj hlast ▸ hispush) hpush
  · obtain ⟨latest, t, hlook, hrest⟩ := (run_bind_ok (editStep setting)).mp h
    split at hrest
    · cases hrest
    · rename_i digest hdigest
      obtain ⟨look, hlooked, hfound⟩ := remoteFsStat_ok hlook hdigest
      split at hrest
      · cases hrest
      · rename_i hsame
        obtain rfl : digest = session.originalRemoteSha256 := not_not.mp hsame
        obtain ⟨summary, hpush⟩ := keepingCopy_ok hrest
        obtain ⟨os, hpushed⟩ := executePush_ok hpush
        set push : Asked env := ⟨.executePush _ session.remotePath, os⟩
        have hasked : w'.asked = w.asked ++ [look, push] := by rw [hpushed, hlooked, List.append_assoc]; rfl
        constructor
        · rintro ⟨save, hlast, -, hreplaced⟩ earlier look' push' hasked' hispush
          rw [getLast?_of_two hasked'] at hlast
          obtain rfl := Option.some.inj hlast
          obtain ⟨-, htail⟩ := List.append_inj' (hasked.symm.trans hasked') rfl
          obtain rfl : look = look' := (List.cons.inj htail).1
          rw [hreplaced, hfound]
        · intro hundisturbed
          refine ⟨push, getLast?_of_two hasked, rfl, ?_⟩
          rw [hundisturbed w.asked look push hasked trivial, hfound]

/-! ### The whole edit -/

/-- There is a file with this content at a path. -/
def HasFile (os : Os) (p : Path) (content : Bytes) : Prop :=
  ∃ l mode, os.lookup true p = .ok (l, .inl (.file mode content))

theorem HasFile.of_sameTree {os os' : Os} (hsame : Os.SameTree os os') {p : Path} {content : Bytes}
    (h : HasFile os p content) : HasFile os' p content := by
  obtain ⟨l, mode, hlookup⟩ := h
  exact ⟨l, mode, by rw [hsame.lookup, hlookup]⟩

/-- A file that is there is still there after looking at it. -/
theorem hasFile_of_sha256 {p : Path} {os os' : Os} {digest : Str}
    (h : run Os.step (sha256LocalPath env setting p) os = (.ok digest, os')) :
    ∃ content, HasFile os' p content := by
  obtain ⟨l, mode, content, hlookup, -⟩ := Daemon.sha256Path_eq_ok h
  have hsame := Os.run_readsOnly (Daemon.sha256Path_readsOnly env.sha256 setting.reads p) os
  have hafter : (run Os.step (sha256LocalPath env setting p) os).2 = os' := by rw [h]
  have hsame' : Os.SameTree os os' := hafter ▸ hsame
  exact ⟨content, HasFile.of_sameTree hsame' ⟨l, mode, hlookup⟩⟩

/-- When the editor is done there is a copy. -/
theorem editCopy_ok {session : EditSession} {w w' : EditWorld env} {changed : Bool}
    (h : run (editStep setting) (editCopy setting session) w = (.ok changed, w')) :
    ∃ content, HasFile w'.host session.localPath content := by
  obtain ⟨original, w₁, -, h₁⟩ := (run_bind_ok (editStep setting)).mp h
  obtain ⟨status, w₂, -, h₂⟩ := (run_bind_ok (editStep setting)).mp h₁
  split at h₂
  · cases h₂
  · obtain ⟨edited, w₃, hsha, hdone⟩ := (run_bind_ok (editStep setting)).mp h₂
    obtain ⟨-, rfl⟩ := Prod.mk.inj hdone
    rw [run_onHost] at hsha
    obtain ⟨hok, rfl⟩ := Prod.mk.inj hsha
    exact hasFile_of_sha256 (Prod.ext hok rfl)

theorem beginEdit_ok {remotePath : Str} {w w' : EditWorld env} {session : EditSession} {changed : Bool}
    (h : run (editStep setting) (beginEdit setting remotePath) w = (.ok (session, changed), w')) :
    session.remotePath = remotePath ∧ ∃ content, HasFile w'.host session.localPath content := by
  obtain ⟨opened, w₁, hopen, h₁⟩ := (run_bind_ok (editStep setting)).mp h
  obtain ⟨_, w₂, -, h₂⟩ := (run_bind_ok (editStep setting)).mp h₁
  obtain ⟨found, w₃, hcopy, hdone⟩ := (run_bind_ok (editStep setting)).mp h₂
  obtain ⟨hpair, rfl⟩ := Prod.mk.inj hdone
  obtain ⟨rfl, rfl⟩ := Prod.mk.inj (Except.ok.inj hpair)
  refine ⟨?_, editCopy_ok hcopy⟩
  obtain ⟨stat, w₄, -, hrest⟩ := (run_bind_ok (editStep setting)).mp hopen
  split at hrest
  · cases hrest
  split at hrest
  · cases hrest
  split at hrest
  · cases hrest
  · obtain ⟨tempDir, w₅, -, hsession⟩ := (run_bind_ok (editStep setting)).mp hrest
    obtain ⟨hsame, -⟩ := Prod.mk.inj hsession
    rw [← Except.ok.inj hsame]

/-- An edit that reports `updated` has saved a change, and has made no request since. -/
theorem editCommand_updated {remotePath : Str} {w w' : EditWorld env}
    (h : run (editStep setting) (editCommand setting remotePath) w = (.ok .updated, w')) :
    ∃ session w₁, run (editStep setting) (beginEdit setting remotePath) w = (.ok (session, true), w₁) ∧
      (Replaced remotePath session.originalRemoteSha256 w' ↔ Undisturbed remotePath w') := by
  obtain ⟨⟨session, changed⟩, w₁, hbegin, hfinish⟩ := (run_bind_ok (editStep setting)).mp h
  cases changed with
  | false =>
    obtain ⟨_, w₂, -, hdone⟩ := (run_bind_ok (editStep setting)).mp hfinish
    cases Except.ok.inj (Prod.mk.inj hdone).1
  | true =>
    obtain ⟨_, w₂, hsave, hrest⟩ := (run_bind_ok (editStep setting)).mp hfinish
    obtain ⟨_, w₃, hremove, hdone⟩ := (run_bind_ok (editStep setting)).mp hrest
    obtain ⟨-, rfl⟩ := Prod.mk.inj hdone
    rw [run_onHost] at hremove
    obtain ⟨-, rfl⟩ := Prod.mk.inj hremove
    have hiff := saveEdit_ok hsave
    rw [(beginEdit_ok hbegin).1] at hiff
    exact ⟨session, w₁, hbegin, hiff⟩

/-- The edit overwrites nobody's change: if it reports `updated`, the content its
save replaced has the digest its first look gave, and if the save fails, the
edited copy is still there. -/
structure EditSafe (setting : EditSetting) (remotePath : Str) (w : EditWorld env) : Prop where
  replaced : ∀ session changed w₁ w', run (editStep setting) (beginEdit setting remotePath) w =
    (.ok (session, changed), w₁) → run (editStep setting) (editCommand setting remotePath) w = (.ok .updated, w') →
      Replaced remotePath session.originalRemoteSha256 w'
  kept : ∀ session w₁ err w₂, run (editStep setting) (beginEdit setting remotePath) w = (.ok (session, true), w₁) →
    run (editStep setting) (saveEdit setting session) w₁ = (.error err, w₂) →
      run (editStep setting) (editCommand setting remotePath) w = (.error err, w₂) ∧
        ∃ content, HasFile w₁.host session.localPath content ∧ HasFile w₂.host session.localPath content

/-- **When an edit overwrites nobody's change.** For every file and both ways of
saving, whatever the others do before each request, whichever requests are lost,
and whatever the editor does: an edit is safe if and only if, where it reports
`updated` and ends with a push, nobody has changed the digest of the file between
the look before the push and the push. -/
theorem edit_safe_iff (setting : EditSetting) (remotePath : Str) (w : EditWorld env) :
    EditSafe setting remotePath w ↔
      ∀ w', run (editStep setting) (editCommand setting remotePath) w = (.ok .updated, w') →
        Undisturbed remotePath w' := by
  constructor
  · rintro ⟨hreplaced, -⟩ w' hrun
    obtain ⟨session, w₁, hbegin, hiff⟩ := editCommand_updated hrun
    exact hiff.mp (hreplaced session true w₁ w' hbegin hrun)
  · intro hundisturbed
    refine ⟨fun session changed w₁ w' hbegin hrun => ?_, fun session w₁ err w₂ hbegin hsave => ⟨?_, ?_⟩⟩
    · obtain ⟨session', w₁', hbegin', hiff⟩ := editCommand_updated hrun
      rw [hbegin] at hbegin'
      obtain ⟨hpair, rfl⟩ := Prod.mk.inj hbegin'
      obtain ⟨rfl, rfl⟩ := Prod.mk.inj (Except.ok.inj hpair)
      exact hiff.mpr (hundisturbed w' hrun)
    · have hfinish : run (editStep setting) (finishEdit setting (session, true)) w₁ = (.error err, w₂) := by
        show run (editStep setting) (saveEdit setting session >>= _) w₁ = _
        rw [run_bind, hsave]
      rw [editCommand, run_bind, hbegin]
      exact hfinish
    · obtain ⟨-, content, hcopy⟩ := beginEdit_ok hbegin
      have hspared : Os.SameTree w₁.host (run (editStep setting) (saveEdit setting session) w₁).2.host :=
        run_sparesHost (saveEdit_sparesHost session) w₁
      rw [hsave] at hspared
      exact ⟨content, hcopy, hcopy.of_sameTree hspared⟩

/-! ### Edits that are answered -/

/-- A request whose frames fit. -/
theorem served_of_fits {r : FsRequest env} {os os' : Os} {response : ControlResponse}
    (hsent : (setting.codec.request r.request).length ≤ maxPayloadLen)
    (hrun : run Os.step r.operation os = (.ok response, os')) (hfits : Daemon.Fits setting.codec.response response) :
    served setting r os = (.ok response, os') := by
  unfold served
  simp only [writeJsonFrame_of_le hsent, hrun, Daemon.fsAnswer, if_pos hfits]

/-- A request that is answered. -/
theorem run_request_of_answered {r : FsRequest env} {w : EditWorld env} {os os' : Os} {response : ControlResponse}
    (hdelivery : setting.delivery w.asked.length = .answered) (hothers : setting.others w.asked.length w.remote = os)
    (hserved : served setting r os = (.ok response, os')) :
    run (editStep setting) (request r) w = (.ok response, ⟨os', w.host, w.asked ++ [⟨.request r, os⟩]⟩) := by
  have hasked : editStep setting (.request r) w = (.ok response, ⟨os', w.host, w.asked ++ [⟨.request r, os⟩]⟩) := by
    show w.ask setting (.request r) (served setting r) = _
    unfold EditWorld.ask
    simp only [hdelivery, hothers, hserved]
  rw [request, run_bind, Prog.run_ask, hasked]
  rfl

theorem run_fetchCopy_of_answered {session : EditSession} {w : EditWorld env} {os : Os} {summary : PullSummary}
    (hlarge : session.inlineEdit = false) (hdelivery : setting.delivery w.asked.length = .answered)
    (hothers : setting.others w.asked.length w.remote = os) {host : Os}
    (hpull : pullSession setting.codec setting.remoteGlob os setting.pullRuns [session.remotePath]
      (utf8Lossy session.localPath.display) w.host = (.ok summary, host)) :
    run (editStep setting) (fetchCopy setting session) w = (.ok (), ⟨os, host,
      w.asked ++ [⟨.executePull [session.remotePath] (utf8Lossy session.localPath.display), os⟩]⟩) := by
  unfold fetchCopy
  rw [hlarge, if_neg Bool.false_ne_true, run_bind, Prog.run_ask]
  simp only [editStep, EditWorld.ask, hdelivery, hothers, hpull]
  rfl

/-- A push where the last look finds the digest of the first. -/
theorem run_saveEdit_of_answered {session : EditSession} {w w' : EditWorld env} {stat : AgentFsStat} {os os' : Os}
    {manifest : BatchManifest} {summary : PushSummary} (hlarge : session.inlineEdit = false)
    (hlook : run (editStep setting) (remoteFsStat setting session.remotePath (some .sha256)) w = (.ok stat, w'))
    (hdigest : stat.sha256 = some session.originalRemoteSha256)
    (hmanifest : (expandLocalSources setting.localGlob w'.host [utf8Lossy session.localPath.display]).bind
      buildLocalBatchManifest = .ok manifest)
    (hdelivery : setting.delivery w'.asked.length = .answered)
    (hothers : setting.others w'.asked.length w'.remote = os)
    (hpush : pushSession setting.codec os manifest setting.pushRuns session.remotePath = (.ok summary, os')) :
    run (editStep setting) (saveEdit setting session) w = (.ok (), ⟨os', w'.host,
      w'.asked ++ [⟨.executePush [utf8Lossy session.localPath.display] session.remotePath, os⟩]⟩) := by
  unfold saveEdit
  rw [hlarge, if_neg Bool.false_ne_true, run_bind, hlook]
  simp only [hdigest, ne_eq, not_true_eq_false, ↓reduceIte]
  rw [keepingCopy, run_bind, Prog.run_attempt, run_bind, Prog.run_ask]
  simp only [editStep, EditWorld.push, EditWorld.ask, hmanifest, hdelivery, hothers, hpush]
  rfl

theorem run_beginEdit_of {remotePath : Str} {w w₁ w₂ w₃ : EditWorld env} {session : EditSession} {changed : Bool}
    (hopen : run (editStep setting) (openEdit setting remotePath) w = (.ok session, w₁))
    (hfetch : run (editStep setting) (fetchCopy setting session) w₁ = (.ok (), w₂))
    (hcopy : run (editStep setting) (editCopy setting session) w₂ = (.ok changed, w₃)) :
    run (editStep setting) (beginEdit setting remotePath) w = (.ok (session, changed), w₃) :=
  (run_bind_ok _).mpr ⟨session, w₁, hopen, (run_bind_ok _).mpr ⟨(), w₂, hfetch,
    (run_bind_ok _).mpr ⟨changed, w₃, hcopy, rfl⟩⟩⟩

theorem run_editCommand_of {remotePath : Str} {w w₁ w₂ : EditWorld env} {session : EditSession}
    (hbegin : run (editStep setting) (beginEdit setting remotePath) w = (.ok (session, true), w₁))
    (hsave : run (editStep setting) (saveEdit setting session) w₁ = (.ok (), w₂))
    (hremove : (run Os.step (removeEditTempDir setting session.tempDir) w₂.host).1 = .ok ()) :
    ∃ w', run (editStep setting) (editCommand setting remotePath) w = (.ok .updated, w') ∧ w'.asked = w₂.asked := by
  refine ⟨{ w₂ with host := (run Os.step (removeEditTempDir setting session.tempDir) w₂.host).2 }, ?_, rfl⟩
  refine (run_bind_ok _).mpr ⟨(session, true), w₁, hbegin, (run_bind_ok _).mpr ⟨(), w₂, hsave, ?_⟩⟩
  refine (run_bind_ok _).mpr ⟨(), _, ?_, rfl⟩
  rw [run_onHost, hremove]

end

/-! ### A push over a change -/

/-- A file just over the limit. -/
@[irreducible] def largeContent : Bytes := List.replicate (defaultInlineEditMaxBytes + 1) 97

/-- A remote root with one file in it. -/
def remoteFile (content : Bytes) : Os := Os.fresh.withLeaf [⟨str "f", isName_f⟩] (.file 0o644 content)

/-- The digests of short files are their bytes, and all large files have one digest. -/
def raceEnv : FsEnv where
  sha256 bytes := if bytes.length ≤ defaultInlineEditMaxBytes then bytes else str "large"
  base64 := ⟨fun bytes => bytes, .ok⟩
  nonce := 0
  reads := defaultInlineEditMaxBytes + 2
  depth := 8
  mtimeUnixMs _ := some 42

/-- A file of one byte, read at once. -/
def oneByte (byte : UInt8) : ReadRun where
  opened := .ok ()
  chunks := [[byte]]
  ending := .ok ()
  sizes c hc := by
    rw [List.mem_singleton.mp hc]
    exact ⟨Nat.zero_lt_one, (by decide : 1 ≤ defaultStreamChunkSize)⟩

/-- An editor that writes another text. -/
def writeOver (text : Bytes) (_ : EditorCommand) (path : Path) (os : Os) : Except IoError (Option Int32) × Os :=
  let edit : Act Unit := do
    let fd ← Act.io (← Act.openWrite path 0o666)
    Act.io (← Act.write fd text)
  (.ok (some 0), (run Os.step edit os).2)

/-- The messages of a pull and a push of `/f`. -/
def raceCodec : Codec :=
  let roots : List TransferRoot := [⟨str "f", .file, 0o644⟩]
  let entries : List TransferEntry := [⟨0, [], .file, 0o644, 1⟩]
  Codec.documented [.pullBatch [str "/f"], .pushBatch (str "/f") roots entries]
    [.pullBatchMetadata roots entries 1, .pullBatchComplete 1 1, .pushBatchReady, .pushBatchComplete 1 1]

/-- The others cut the file short before the pull, put it back before the look,
and write their own text before the push. -/
def raceSetting : EditSetting where
  codec := raceCodec
  remoteGlob := noGlob
  localGlob := noGlob
  delivery _ := .answered
  others
    | 1, _ => remoteFile (str "a")
    | 3, _ => remoteFile (str "c")
    | _, _ => remoteFile largeContent
  pullRuns _ := oneByte 97
  pushRuns _ := oneByte 98
  runEditor := writeOver (str "b")
  editor := .ok ⟨str "vi", []⟩
  tempDir := .ofStr (str "/tmp")
  nonce := 0
  reads := 8
  depth := 8

/-- An edit of one file. -/
def raceSession : EditSession where
  remotePath := str "/f"
  remoteMode := 0o644
  originalRemoteSha256 := str "large"
  tempDir := .ofStr (str "/tmp/rsdb-edit-0")
  localPath := .ofStr (str "/tmp/rsdb-edit-0/f")
  inlineEdit := false

/-- What the daemon answers of the file. -/
def raceStat : AgentFsStat :=
  ⟨str "/f", true, some .file, some (defaultInlineEditMaxBytes + 1), some 0o644, some 42, some (str "large")⟩

/-- The request of its stat, and the device it was asked of. -/
def raceLook : Asked raceEnv :=
  ⟨.request ⟨.fsStat (str "/f") (some .sha256), _, rfl⟩, remoteFile largeContent⟩

/-- The client's files when the directory for the copy is there. -/
def raceOpened : Os := (run Os.step (createEditTempDir raceSetting) Os.fresh).2

/-- The client after the pull. -/
def raceFetched : Os :=
  (pullSession raceCodec noGlob (remoteFile (str "a")) raceSetting.pullRuns [str "/f"]
    (utf8Lossy raceSession.localPath.display) raceOpened).2

/-- The edit when the copy is there. -/
def raceCopied : EditWorld raceEnv where
  remote := remoteFile (str "a")
  host := raceFetched
  asked := [raceLook, ⟨.executePull [str "/f"] (utf8Lossy raceSession.localPath.display), remoteFile (str "a")⟩]

/-- The edit when the editor has run. -/
@[irreducible] def raceEdited : EditWorld raceEnv :=
  (run (editStep raceSetting) (editCopy raceSetting raceSession : EditProg raceEnv Bool) raceCopied).2

/-- What the push announces. -/
def raceManifest : BatchManifest where
  roots := [⟨str "f", .file, 0o644⟩]
  entries := [⟨0, [], .file, 0o644, 1⟩]
  files := [⟨raceSession.localPath, 1⟩]
  totalBytes := 1

theorem lookup_remoteFile (content : Bytes) : (remoteFile content).lookup false (.ofStr (str "/f")) =
    .ok ([⟨str "f", by decide⟩], .inl (.file 0o644 content)) := rfl

/-- A look at the large file. -/
theorem run_raceLook {w : EditWorld raceEnv}
    (hlarge : raceSetting.others w.asked.length w.remote = remoteFile largeContent) :
    ∃ remote, run (editStep raceSetting) (remoteFsStat raceSetting (str "/f") (some .sha256)) w =
      (.ok raceStat, ⟨remote, w.host, w.asked ++ [raceLook]⟩) := by
  have hlength : largeContent.length = defaultInlineEditMaxBytes + 1 := by
    unfold largeContent
    exact List.length_replicate
  have hdigest : raceEnv.sha256 largeContent = str "large" := by
    have hlong : ¬ largeContent.length ≤ defaultInlineEditMaxBytes := by
      rw [hlength]
      exact Nat.not_succ_le_self _
    exact if_neg hlong
  obtain ⟨remote, hstat⟩ := @Daemon.run_handleFsStat_of_file raceEnv.sha256 raceEnv.reads raceEnv.mtimeUnixMs _ _ _ _ _
    (by decide) (lookup_remoteFile largeContent) rfl (by rw [hlength]; exact Nat.lt_succ_self _)
  have hsame : (⟨(Path.ofStr (str "/f")).display, true, some .file, some largeContent.length, some (0o644 &&& 0o7777),
      raceEnv.mtimeUnixMs (.ofStr (str "/f")), some (raceEnv.sha256 largeContent)⟩ : AgentFsStat) = raceStat := by
    rw [hlength, hdigest]
    decide
  rw [hsame] at hstat
  set r : FsRequest raceEnv := ⟨.fsStat (str "/f") (some .sha256), _, rfl⟩
  have hsent : (raceSetting.codec.request r.request).length ≤ maxPayloadLen := by decide +kernel
  have hfits : Daemon.Fits raceSetting.codec.response (.fsStat raceStat) := by decide +kernel
  have hoperation : run Os.step r.operation (remoteFile largeContent) = (.ok (.fsStat raceStat), remote) :=
    (run_bind_ok Os.step).mpr ⟨raceStat, remote, hstat, rfl⟩
  have hserved : served raceSetting r (remoteFile largeContent) = (.ok (.fsStat raceStat), remote) :=
    served_of_fits hsent hoperation hfits
  have hrequest := run_request_of_answered (w := w) rfl hlarge hserved
  exact ⟨remote, (run_bind_ok _).mpr ⟨.fsStat raceStat, _, hrequest, rfl⟩⟩

/-- The edit up to the save. -/
theorem run_raceBegin : run (editStep raceSetting) (beginEdit raceSetting (str "/f")) ⟨Os.fresh, Os.fresh, []⟩ =
    (.ok (raceSession, true), raceEdited) := by
  obtain ⟨remote, hlook⟩ := @run_raceLook ⟨Os.fresh, Os.fresh, []⟩ rfl
  have hdir : (run Os.step (createEditTempDir raceSetting) Os.fresh).1 = .ok raceSession.tempDir := by decide +kernel
  have hcreate : run (editStep raceSetting) (onHost (createEditTempDir raceSetting) : EditProg raceEnv Path)
      ⟨remote, Os.fresh, [raceLook]⟩ = (.ok raceSession.tempDir, ⟨remote, raceOpened, [raceLook]⟩) := by
    rw [run_onHost, hdir]
    rfl
  have hpath : raceSession.tempDir.join (.ofStr (remoteEditFileName (str "/f"))) = raceSession.localPath := by
    decide +kernel
  have hopen : run (editStep raceSetting) (openEdit raceSetting (str "/f")) ⟨Os.fresh, Os.fresh, []⟩ =
      (.ok raceSession, ⟨remote, raceOpened, [raceLook]⟩) := by
    refine (run_bind_ok _).mpr ⟨raceStat, _, hlook, ?_⟩
    refine (run_bind_ok _).mpr ⟨raceSession.tempDir, _, hcreate, ?_⟩
    show ((.ok ⟨str "/f", 0o644, str "large", raceSession.tempDir, _, decide (_ ≤ defaultInlineEditMaxBytes)⟩ :
      Except AnyhowError EditSession), _) = _
    rw [hpath]
    simp only [raceStat, Option.getD_some]
    rfl
  obtain ⟨summary, hpull⟩ := Prog.outcome_of_isOk (by decide +kernel : (pullSession raceCodec noGlob (remoteFile (str "a"))
    raceSetting.pullRuns [str "/f"] (utf8Lossy raceSession.localPath.display) raceOpened).1.isOk = true)
  have hfetch : run (editStep raceSetting) (fetchCopy raceSetting raceSession) ⟨remote, raceOpened, [raceLook]⟩ =
      (.ok (), raceCopied) := run_fetchCopy_of_answered rfl rfl rfl hpull
  have hedited : (run (editStep raceSetting) (editCopy raceSetting raceSession) raceCopied).1 = .ok true := by
    decide +kernel
  have hcopy : run (editStep raceSetting) (editCopy raceSetting raceSession) raceCopied = (.ok true, raceEdited) := by
    unfold raceEdited
    exact Prog.outcome_of_ok hedited
  exact run_beginEdit_of hopen hfetch hcopy

/-- The edit reports `updated`, and its push has replaced what it never saw. -/
theorem edit_unsafe_push : ¬ EditSafe raceSetting (str "/f") (⟨Os.fresh, Os.fresh, []⟩ : EditWorld raceEnv) := by
  rintro ⟨hreplaced, -⟩
  have hlength : raceEdited.asked.length = 2 := by decide +kernel
  obtain ⟨remote, hlook⟩ := @run_raceLook raceEdited (by rw [hlength]; rfl)
  have hmanifest : (expandLocalSources noGlob raceEdited.host [utf8Lossy raceSession.localPath.display]).bind
      buildLocalBatchManifest = .ok raceManifest := by decide +kernel
  obtain ⟨summary, hpush⟩ := Prog.outcome_of_isOk (by decide +kernel : (pushSession raceCodec (remoteFile (str "c")) raceManifest
    raceSetting.pushRuns (str "/f")).1.isOk = true)
  have hdelivery : raceSetting.others (raceEdited.asked ++ [raceLook]).length remote = remoteFile (str "c") := by
    rw [List.length_append, hlength]
    rfl
  have hsave := @run_saveEdit_of_answered raceEnv raceSetting raceSession raceEdited _ _ _ _ _ _ rfl hlook rfl hmanifest
    rfl hdelivery hpush
  have hremove : (run Os.step (removeEditTempDir raceSetting raceSession.tempDir) raceEdited.host).1 = .ok () := by
    decide +kernel
  obtain ⟨w', hrun, hasked⟩ := run_editCommand_of run_raceBegin hsave hremove
  obtain ⟨save, hlast, -, hdigest⟩ := hreplaced raceSession true raceEdited w' run_raceBegin hrun
  rw [hasked, List.getLast?_concat] at hlast
  obtain rfl := Option.some.inj hlast
  exact absurd hdigest (by decide +kernel)

end Edit

end Client

end Rsdb
