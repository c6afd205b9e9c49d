/-
# What is derived for the control messages

The fields of every message with what `serde` derives for them: their names, their
types and which of them are marked with a default. The name of a variant is in
snake case, and the variants of a request and of a response are told apart by the
member `type`.

The text of what is written is the one that the modules before use for a message
(`jsonText_request`, `jsonText_response`). A message that is sent comes out of its
frame as it went in, and a message of a peer that does not know the fields with
defaults has these at them (`control_messages_survive_wire`).
-/
import Rsdb.Lib.Serde
import Rsdb.Proto.Control

namespace Rsdb

/-! ### Enumerations -/

/-- The codes, each once. -/
def ErrorCode.all : List ErrorCode :=
  [invalidRequest, capabilityMissing, execFailed, execStartFailed, execTimeout, fileTransferFailed, notFound, fsNotFound,
    fsPermissionDenied, fsPreconditionFailed, fsNoSpace, transferInterrupted, transferVerificationFailed, internal]

/-- A code is one of the names. -/
def ErrorCode.serde : Serde ErrorCode :=
  .enumeration ErrorCode.all (fun code => snakeCase code.debug) (fun code => by cases code <;> decide) (by decide +kernel)

/-- A kind of entry is one of the two names. -/
def TransferEntryKind.serde : Serde TransferEntryKind :=
  .enumeration [.file, .directory] (fun kind => snakeCase kind.debug) (fun kind => by cases kind <;> decide)
    (by decide +kernel)

/-- What is at a path, as `{:?}` prints it. -/
def FsEntryKind.debug : FsEntryKind → Str
  | file => str "File"
  | directory => str "Directory"
  | symlink => str "Symlink"
  | other => str "Other"

/-- What is at a path is one of the names. -/
def FsEntryKind.serde : Serde FsEntryKind :=
  .enumeration [.file, .directory, .symlink, .other] (fun kind => snakeCase kind.debug)
    (fun kind => by cases kind <;> decide) (by decide +kernel)

/-- An algorithm as `{:?}` prints it. -/
def HashAlgorithm.debug : HashAlgorithm → Str
  | sha256 => str "Sha256"

/-- There is one algorithm. -/
def HashAlgorithm.serde : Serde HashAlgorithm :=
  .enumeration [.sha256] (fun hash => snakeCase hash.debug) (fun hash => by cases hash; decide) (by decide +kernel)

/-- An encoding as `{:?}` prints it. -/
def ContentEncoding.debug : ContentEncoding → Str
  | utf8 => str "Utf8"
  | base64 => str "Base64"

/-- An encoding is one of the two names. -/
def ContentEncoding.serde : Serde ContentEncoding :=
  .enumeration [.utf8, .base64] (fun encoding => snakeCase encoding.debug) (fun encoding => by cases encoding <;> decide)
    (by decide +kernel)

/-! ### Options -/

/-- A string or `null`. -/
def optionalString : Serde (Option Str) := .option .string fun s dropped h => by cases h

/-- A number of so many bits, or `null`. -/
def optionalUnsigned (bits : ℕ) : Serde (Option ℕ) := .option (.unsigned bits) fun n dropped h => by cases h

/-- A kind or `null`. -/
def optionalEntryKind : Serde (Option FsEntryKind) := .option FsEntryKind.serde fun kind dropped h => by cases h

/-- An algorithm or `null`. -/
def optionalHash : Serde (Option HashAlgorithm) := .option HashAlgorithm.serde fun hash dropped h => by cases h

/-! ### Records -/

/-- What a daemon can do; no field may be missing. -/
def CapabilitySet.serde : Serde CapabilitySet :=
  .record
    (.cons (.required (str "protocol_version") (.unsigned 16)) <|
      .cons (.required (str "transports") (.list .string)) <|
      .cons (.required (str "security") (.list .string)) <|
      .cons (.required (str "features") (.list .string)) .nil)
    (fun (protocolVersion, transports, security, features, ()) => ⟨protocolVersion, transports, security, features⟩)
    (fun c => (c.protocolVersion, c.transports, c.security, c.features, ())) (by decide +kernel) fun _ => rfl

/-- No field of a root may be missing. -/
def TransferRoot.serde : Serde TransferRoot :=
  .record
    (.cons (.required (str "source_name") .string) <|
      .cons (.required (str "kind") TransferEntryKind.serde) <|
      .cons (.required (str "mode") (.unsigned 32)) .nil)
    (fun (sourceName, kind, mode, ()) => ⟨sourceName, kind, mode⟩)
    (fun r => (r.sourceName, r.kind, r.mode, ())) (by decide +kernel) fun _ => rfl

/-- No field of an entry may be missing. -/
def TransferEntry.serde : Serde TransferEntry :=
  .record
    (.cons (.required (str "root_index") (.unsigned 32)) <|
      .cons (.required (str "relative_path") .string) <|
      .cons (.required (str "kind") TransferEntryKind.serde) <|
      .cons (.required (str "mode") (.unsigned 32)) <|
      .cons (.required (str "size") (.unsigned 64)) .nil)
    (fun (rootIndex, relativePath, kind, mode, size, ()) => ⟨rootIndex, relativePath, kind, mode, size⟩)
    (fun e => (e.rootIndex, e.relativePath, e.kind, e.mode, e.size, ())) (by decide +kernel) fun _ => rfl

/-- What is not known of a path may be missing. -/
def AgentFsStat.serde : Serde AgentFsStat :=
  .record
    (.cons (.required (str "path") .string) <|
      .cons (.required (str "exists") .boolean) <|
      .cons (.optional (str "kind") optionalEntryKind) <|
      .cons (.optional (str "size") (optionalUnsigned 64)) <|
      .cons (.optional (str "mode") (optionalUnsigned 32)) <|
      .cons (.optional (str "mtime_unix_ms") (optionalUnsigned 64)) <|
      .cons (.optional (str "sha256") optionalString) .nil)
    (fun (path, present, kind, size, mode, mtimeUnixMs, sha256, ()) =>
      ⟨path, present, kind, size, mode, mtimeUnixMs, sha256⟩)
    (fun s => (s.path, s.present, s.kind, s.size, s.mode, s.mtimeUnixMs, s.sha256, ())) (by decide +kernel) fun _ => rfl

/-- A digest may be missing. -/
def AgentFsListEntry.serde : Serde AgentFsListEntry :=
  .record
    (.cons (.required (str "path") .string) <|
      .cons (.required (str "kind") FsEntryKind.serde) <|
      .cons (.required (str "size") (.unsigned 64)) <|
      .cons (.optional (str "sha256") optionalString) .nil)
    (fun (path, kind, size, sha256, ()) => ⟨path, kind, size, sha256⟩)
    (fun e => (e.path, e.kind, e.size, e.sha256, ())) (by decide +kernel) fun _ => rfl

/-- Only `truncated` may be missing. -/
def AgentFsReadResult.serde : Serde AgentFsReadResult :=
  .record
    (.cons (.required (str "path") .string) <|
      .cons (.required (str "encoding") ContentEncoding.serde) <|
      .cons (.required (str "content") .string) <|
      .cons (.required (str "bytes") (.unsigned 64)) <|
      .cons (.default (str "truncated") .boolean false) .nil)
    (fun (path, encoding, content, bytes, truncated, ()) => ⟨path, encoding, content, bytes, truncated⟩)
    (fun r => (r.path, r.encoding, r.content, r.bytes, r.truncated, ())) (by decide +kernel) fun _ => rfl

/-- The bits, the digest and `changed` may be missing. -/
def AgentFsWriteResult.serde : Serde AgentFsWriteResult :=
  .record
    (.cons (.required (str "path") .string) <|
      .cons (.required (str "bytes_written") (.unsigned 64)) <|
      .cons (.optional (str "mode") (optionalUnsigned 32)) <|
      .cons (.optional (str "sha256") optionalString) <|
      .cons (.default (str "changed") .boolean false) .nil)
    (fun (path, bytesWritten, mode, sha256, changed, ()) => ⟨path, bytesWritten, mode, sha256, changed⟩)
    (fun r => (r.path, r.bytesWritten, r.mode, r.sha256, r.changed, ())) (by decide +kernel) fun _ => rfl

/-- Where `created` is missing, nothing was. -/
def AgentFsMkdirResult.serde : Serde AgentFsMkdirResult :=
  .record (.cons (.required (str "path") .string) <| .cons (.default (str "created") .boolean false) .nil)
    (fun (path, created, ()) => ⟨path, created⟩) (fun r => (r.path, r.created, ())) (by decide +kernel) fun _ => rfl

/-- Where `removed` is missing, nothing was. -/
def AgentFsRmResult.serde : Serde AgentFsRmResult :=
  .record (.cons (.required (str "path") .string) <| .cons (.default (str "removed") .boolean false) .nil)
    (fun (path, removed, ()) => ⟨path, removed⟩) (fun r => (r.path, r.removed, ())) (by decide +kernel) fun _ => rfl

/-- Where `overwritten` is missing, nothing was. -/
def AgentFsMoveResult.serde : Serde AgentFsMoveResult :=
  .record
    (.cons (.required (str "source") .string) <|
      .cons (.required (str "destination") .string) <|
      .cons (.default (str "overwritten") .boolean false) .nil)
    (fun (source, destination, overwritten, ()) => ⟨source, destination, overwritten⟩)
    (fun r => (r.source, r.destination, r.overwritten, ())) (by decide +kernel) fun _ => rfl

/-! ### Requests -/

/-- The variants of a request. -/
inductive RequestTag where
  | ping | getCapabilities | exec | fsStat | fsList | fsRead | fsWrite | fsMkdir | fsRm | fsMove | push | pull
  | pushBatch | pullBatch | shell
  deriving DecidableEq

/-- The tags of the requests, each once. -/
def RequestTag.all : List RequestTag :=
  [ping, getCapabilities, exec, fsStat, fsList, fsRead, fsWrite, fsMkdir, fsRm, fsMove, push, pull, pushBatch, pullBatch,
    shell]

/-- The name of a variant in the source. -/
def RequestTag.debug : RequestTag → Str
  | ping => str "Ping"
  | getCapabilities => str "GetCapabilities"
  | exec => str "Exec"
  | fsStat => str "FsStat"
  | fsList => str "FsList"
  | fsRead => str "FsRead"
  | fsWrite => str "FsWrite"
  | fsMkdir => str "FsMkdir"
  | fsRm => str "FsRm"
  | fsMove => str "FsMove"
  | push => str "Push"
  | pull => str "Pull"
  | pushBatch => str "PushBatch"
  | pullBatch => str "PullBatch"
  | shell => str "Shell"

/-- The fields of a request, and how it is built from them. -/
def RequestTag.variant : RequestTag → Variant ControlRequest
  | ping => ⟨.nil, fun () => .ping⟩
  | getCapabilities => ⟨.nil, fun () => .getCapabilities⟩
  | exec =>
    ⟨.cons (.required (str "command") .string) <|
      .cons (.required (str "args") (.list .string)) <|
      .cons (.default (str "cwd") optionalString none) <|
      .cons (.default (str "timeout_secs") (optionalUnsigned 64) none) <|
      .cons (.default (str "stream") .boolean false) .nil,
      fun (command, args, cwd, timeoutSecs, stream, ()) => .exec command args cwd timeoutSecs stream⟩
  | fsStat =>
    ⟨.cons (.required (str "path") .string) <|
      .cons (.default (str "hash") optionalHash none) .nil,
      fun (path, hash, ()) => .fsStat path hash⟩
  | fsList =>
    ⟨.cons (.required (str "path") .string) <|
      .cons (.default (str "recursive") .boolean false) <|
      .cons (.default (str "max_depth") (optionalUnsigned 32) none) <|
      .cons (.default (str "include_hidden") .boolean false) <|
      .cons (.default (str "hash") optionalHash none) .nil,
      fun (path, recursive, maxDepth, includeHidden, hash, ()) => .fsList path recursive maxDepth includeHidden hash⟩
  | fsRead =>
    ⟨.cons (.required (str "path") .string) <|
      .cons (.default (str "encoding") ContentEncoding.serde .utf8) <|
      .cons (.default (str "max_bytes") (optionalUnsigned 64) none) .nil,
      fun (path, encoding, maxBytes, ()) => .fsRead path encoding maxBytes⟩
  | fsWrite =>
    ⟨.cons (.required (str "path") .string) <|
      .cons (.required (str "content") .string) <|
      .cons (.default (str "encoding") ContentEncoding.serde .utf8) <|
      .cons (.default (str "mode") (optionalUnsigned 32) none) <|
      .cons (.default (str "create_parent") .boolean false) <|
      .cons (.default (str "atomic") .boolean false) <|
      .cons (.default (str "if_missing") .boolean false) <|
      .cons (.default (str "if_sha256") optionalString none) .nil,
      fun (path, content, encoding, mode, createParent, atomic, ifMissing, ifSha256, ()) =>
        .fsWrite path content encoding mode createParent atomic ifMissing ifSha256⟩
  | fsMkdir =>
    ⟨.cons (.required (str "path") .string) <|
      .cons (.default (str "parents") .boolean false) <|
      .cons (.default (str "mode") (optionalUnsigned 32) none) .nil,
      fun (path, parents, mode, ()) => .fsMkdir path parents mode⟩
  | fsRm =>
    ⟨.cons (.required (str "path") .string) <|
      .cons (.default (str "recursive") .boolean false) <|
      .cons (.default (str "force") .boolean false) <|
      .cons (.default (str "if_exists") .boolean false) .nil,
      fun (path, recursive, force, ifExists, ()) => .fsRm path recursive force ifExists⟩
  | fsMove =>
    ⟨.cons (.required (str "source") .string) <|
      .cons (.required (str "destination") .string) <|
      .cons (.default (str "overwrite") .boolean false) .nil,
      fun (source, destination, overwrite, ()) => .fsMove source destination overwrite⟩
  | push =>
    ⟨.cons (.required (str "path") .string) <|
      .cons (.required (str "mode") (.unsigned 32)) <|
      .cons (.default (str "source_name") optionalString none) .nil,
      fun (path, mode, sourceName, ()) => .push path mode sourceName⟩
  | pull => ⟨.cons (.required (str "path") .string) .nil, fun (path, ()) => .pull path⟩
  | pushBatch =>
    ⟨.cons (.required (str "destination") .string) <|
      .cons (.required (str "roots") (.list TransferRoot.serde)) <|
      .cons (.required (str "entries") (.list TransferEntry.serde)) .nil,
      fun (destination, roots, entries, ()) => .pushBatch destination roots entries⟩
  | pullBatch =>
    ⟨.cons (.required (str "sources") (.list .string)) .nil, fun (sources, ()) => .pullBatch sources⟩
  | shell =>
    ⟨.cons (.optional (str "command") optionalString) <|
      .cons (.required (str "args") (.list .string)) <|
      .cons (.default (str "pty") .boolean false) <|
      .cons (.default (str "term") optionalString none) <|
      .cons (.default (str "rows") (optionalUnsigned 16) none) <|
      .cons (.default (str "cols") (optionalUnsigned 16) none) .nil,
      fun (command, args, pty, term, rows, cols, ()) => .shell command args pty term rows cols⟩

/-- A request taken apart. -/
def ControlRequest.view : ControlRequest → (t : RequestTag) × t.variant.Fields
  | ping => ⟨.ping, ()⟩
  | getCapabilities => ⟨.getCapabilities, ()⟩
  | exec command args cwd timeoutSecs stream => ⟨.exec, (command, args, cwd, timeoutSecs, stream, ())⟩
  | fsStat path hash => ⟨.fsStat, (path, hash, ())⟩
  | fsList path recursive maxDepth includeHidden hash =>
    ⟨.fsList, (path, recursive, maxDepth, includeHidden, hash, ())⟩
  | fsRead path encoding maxBytes => ⟨.fsRead, (path, encoding, maxBytes, ())⟩
  | fsWrite path content encoding mode createParent atomic ifMissing ifSha256 =>
    ⟨.fsWrite, (path, content, encoding, mode, createParent, atomic, ifMissing, ifSha256, ())⟩
  | fsMkdir path parents mode => ⟨.fsMkdir, (path, parents, mode, ())⟩
  | fsRm path recursive force ifExists => ⟨.fsRm, (path, recursive, force, ifExists, ())⟩
  | fsMove source destination overwrite => ⟨.fsMove, (source, destination, overwrite, ())⟩
  | push path mode sourceName => ⟨.push, (path, mode, sourceName, ())⟩
  | pull path => ⟨.pull, (path, ())⟩
  | pushBatch destination roots entries => ⟨.pushBatch, (destination, roots, entries, ())⟩
  | pullBatch sources => ⟨.pullBatch, (sources, ())⟩
  | shell command args pty term rows cols => ⟨.shell, (command, args, pty, term, rows, cols, ())⟩

/-- Requests as tagged records. -/
def ControlRequest.tagged : Tagged ControlRequest RequestTag where
  key := str "type"
  all := RequestTag.all
  name t := snakeCase t.debug
  variant := RequestTag.variant
  view := ControlRequest.view
  complete t := by cases t <;> decide
  distinct := by decide +kernel
  fields t := by cases t <;> decide +kernel
  build_view m := by cases m <;> rfl

/-- How requests are written and read. -/
def ControlRequest.serde : Serde ControlRequest := ControlRequest.tagged.serde

/-! ### Responses -/

/-- The variants of a response. -/
inductive ResponseTag where
  | pong | capabilities | execResult | fsStat | fsList | fsReadResult | fsWriteResult | fsMkdirResult | fsRmResult
  | fsMoveResult | pushReady | pushComplete | pullMetadata | pullComplete | pushBatchReady | pushBatchComplete
  | pullBatchMetadata | pullBatchComplete | shellStarted | shellExit | error
  deriving DecidableEq

/-- The tags of the responses, each once. -/
def ResponseTag.all : List ResponseTag :=
  [pong, capabilities, execResult, fsStat, fsList, fsReadResult, fsWriteResult, fsMkdirResult, fsRmResult, fsMoveResult,
    pushReady, pushComplete, pullMetadata, pullComplete, pushBatchReady, pushBatchComplete, pullBatchMetadata,
    pullBatchComplete, shellStarted, shellExit, error]

/-- The name of a variant in the source. -/
def ResponseTag.debug : ResponseTag → Str
  | pong => str "Pong"
  | capabilities => str "Capabilities"
  | execResult => str "ExecResult"
  | fsStat => str "FsStat"
  | fsList => str "FsList"
  | fsReadResult => str "FsReadResult"
  | fsWriteResult => str "FsWriteResult"
  | fsMkdirResult => str "FsMkdirResult"
  | fsRmResult => str "FsRmResult"
  | fsMoveResult => str "FsMoveResult"
  | pushReady => str "PushReady"
  | pushComplete => str "PushComplete"
  | pullMetadata => str "PullMetadata"
  | pullComplete => str "PullComplete"
  | pushBatchReady => str "PushBatchReady"
  | pushBatchComplete => str "PushBatchComplete"
  | pullBatchMetadata => str "PullBatchMetadata"
  | pullBatchComplete => str "PullBatchComplete"
  | shellStarted => str "ShellStarted"
  | shellExit => str "ShellExit"
  | error => str "Error"

/-- A variant with one record in it. -/
def Variant.ofOne {M α : Type} (name : Str) (serde : Serde α) (build : α → M) : Variant M :=
  ⟨.cons (.required name serde) .nil, fun (a, ()) => build a⟩

/-- The fields of a response, and how it is built from them. -/
def ResponseTag.variant : ResponseTag → Variant ControlResponse
  | pong =>
    ⟨.cons (.required (str "server_id") .string) <|
      .cons (.required (str "protocol_version") (.unsigned 16)) .nil,
      fun (serverId, protocolVersion, ()) => .pong serverId protocolVersion⟩
  | capabilities =>
    ⟨.cons (.required (str "server_id") .string) <|
      .cons (.required (str "capability") CapabilitySet.serde) .nil,
      fun (serverId, capability, ()) => .capabilities serverId capability⟩
  | execResult =>
    ⟨.cons (.required (str "status") (.signed 31)) <|
      .cons (.required (str "stdout") .string) <|
      .cons (.required (str "stderr") .string) <|
      .cons (.default (str "timed_out") .boolean false) .nil,
      fun (status, stdout, stderr, timedOut, ()) => .execResult status stdout stderr timedOut⟩
  | fsStat => .ofOne (str "stat") AgentFsStat.serde .fsStat
  | fsList => .ofOne (str "entries") (.list AgentFsListEntry.serde) .fsList
  | fsReadResult => .ofOne (str "result") AgentFsReadResult.serde .fsReadResult
  | fsWriteResult => .ofOne (str "result") AgentFsWriteResult.serde .fsWriteResult
  | fsMkdirResult => .ofOne (str "result") AgentFsMkdirResult.serde .fsMkdirResult
  | fsRmResult => .ofOne (str "result") AgentFsRmResult.serde .fsRmResult
  | fsMoveResult => .ofOne (str "result") AgentFsMoveResult.serde .fsMoveResult
  | pushReady => ⟨.nil, fun () => .pushReady⟩
  | pushComplete => .ofOne (str "bytes_written") (.unsigned 64) .pushComplete
  | pullMetadata =>
    ⟨.cons (.required (str "size") (.unsigned 64)) <|
      .cons (.required (str "mode") (.unsigned 32)) .nil,
      fun (size, mode, ()) => .pullMetadata size mode⟩
  | pullComplete => .ofOne (str "bytes_sent") (.unsigned 64) .pullComplete
  | pushBatchReady => ⟨.nil, fun () => .pushBatchReady⟩
  | pushBatchComplete =>
    ⟨.cons (.required (str "entries_written") (.unsigned 64)) <|
      .cons (.required (str "bytes_written") (.unsigned 64)) .nil,
      fun (entriesWritten, bytesWritten, ()) => .pushBatchComplete entriesWritten bytesWritten⟩
  | pullBatchMetadata =>
    ⟨.cons (.required (str "roots") (.list TransferRoot.serde)) <|
      .cons (.required (str "entries") (.list TransferEntry.serde)) <|
      .cons (.required (str "total_bytes") (.unsigned 64)) .nil,
      fun (roots, entries, totalBytes, ()) => .pullBatchMetadata roots entries totalBytes⟩
  | pullBatchComplete =>
    ⟨.cons (.required (str "entries_sent") (.unsigned 64)) <|
      .cons (.required (str "bytes_sent") (.unsigned 64)) .nil,
      fun (entriesSent, bytesSent, ()) => .pullBatchComplete entriesSent bytesSent⟩
  | shellStarted => .ofOne (str "command") .string .shellStarted
  | shellExit => .ofOne (str "status") (.signed 31) .shellExit
  | error =>
    ⟨.cons (.required (str "code") ErrorCode.serde) <|
      .cons (.required (str "message") .string) .nil,
      fun (code, message, ()) => .error code message⟩

/-- A response taken apart. -/
def ControlResponse.view : ControlResponse → (t : ResponseTag) × t.variant.Fields
  | pong serverId protocolVersion => ⟨.pong, (serverId, protocolVersion, ())⟩
  | capabilities serverId capability => ⟨.capabilities, (serverId, capability, ())⟩
  | execResult status stdout stderr timedOut => ⟨.execResult, (status, stdout, stderr, timedOut, ())⟩
  | fsStat stat => ⟨.fsStat, (stat, ())⟩
  | fsList entries => ⟨.fsList, (entries, ())⟩
  | fsReadResult result => ⟨.fsReadResult, (result, ())⟩
  | fsWriteResult result => ⟨.fsWriteResult, (result, ())⟩
  | fsMkdirResult result => ⟨.fsMkdirResult, (result, ())⟩
  | fsRmResult result => ⟨.fsRmResult, (result, ())⟩
  | fsMoveResult result => ⟨.fsMoveResult, (result, ())⟩
  | pushReady => ⟨.pushReady, ()⟩
  | pushComplete bytesWritten => ⟨.pushComplete, (bytesWritten, ())⟩
  | pullMetadata size mode => ⟨.pullMetadata, (size, mode, ())⟩
  | pullComplete bytesSent => ⟨.pullComplete, (bytesSent, ())⟩
  | pushBatchReady => ⟨.pushBatchReady, ()⟩
  | pushBatchComplete entriesWritten bytesWritten => ⟨.pushBatchComplete, (entriesWritten, bytesWritten, ())⟩
  | pullBatchMetadata roots entries totalBytes => ⟨.pullBatchMetadata, (roots, entries, totalBytes, ())⟩
  | pullBatchComplete entriesSent bytesSent => ⟨.pullBatchComplete, (entriesSent, bytesSent, ())⟩
  | shellStarted command => ⟨.shellStarted, (command, ())⟩
  | shellExit status => ⟨.shellExit, (status, ())⟩
  | error code message => ⟨.error, (code, message, ())⟩

/-- Responses as tagged records. -/
def ControlResponse.tagged : Tagged ControlResponse ResponseTag where
  key := str "type"
  all := ResponseTag.all
  name t := snakeCase t.debug
  variant := ResponseTag.variant
  view := ControlResponse.view
  complete t := by cases t <;> decide
  distinct := by decide +kernel
  fields t := by cases t <;> decide +kernel
  build_view m := by cases m <;> rfl

/-- How responses are written and read. -/
def ControlResponse.serde : Serde ControlResponse := ControlResponse.tagged.serde

/-! ### Texts -/

mutual

/-- The text of a value, without white space. -/
def jsonText : Json → Bytes
  | .null => str "null"
  | .bool b => jsonBool b
  | .num n => jsonInt n
  | .str s => jsonString s
  | .arr items => jsonArray (jsonTexts items)
  | .obj members => jsonObject (jsonMemberTexts members)

/-- The texts of the elements of an array. -/
def jsonTexts : List Json → List Bytes
  | [] => []
  | j :: js => jsonText j :: jsonTexts js

/-- The names of an object's members with the texts of their values. -/
def jsonMemberTexts : List (Bytes × Json) → List (Str × Bytes)
  | [] => []
  | (name, j) :: rest => (name, jsonText j) :: jsonMemberTexts rest

end

theorem jsonTexts_map {α : Type} {write : α → Json} {json : α → Bytes} (h : ∀ a, jsonText (write a) = json a) :
    ∀ as : List α, jsonTexts (as.map write) = as.map json
  | [] => by simp only [List.map_nil, jsonTexts]
  | a :: as => by simp only [List.map_cons, jsonTexts, h, jsonTexts_map h as]

theorem jsonText_list {α : Type} {serde : Serde α} {json : α → Bytes} (h : ∀ a, jsonText (serde.write a) = json a)
    (as : List α) : jsonText ((Serde.list serde).write as) = jsonArray (as.map json) := by
  rw [← jsonTexts_map h]
  show jsonText (.arr (as.map serde.write)) = _
  rw [jsonText]

theorem jsonText_option {α : Type} {serde : Serde α} {json : α → Bytes} (h : ∀ a, jsonText (serde.write a) = json a)
    {hnull : ∀ a dropped, (serde.write a).remove dropped ≠ .null} (o : Option α) :
    jsonText ((Serde.option serde hnull).write o) = jsonOption json o := by
  cases o with
  | none =>
    show jsonText .null = _
    rw [jsonText, jsonOption]
  | some a => exact h a

@[simp] theorem jsonText_string (s : Str) : jsonText (Serde.string.write s) = jsonString s := by
  show jsonText (.str s) = _
  rw [jsonText]

@[simp] theorem jsonText_boolean (b : Bool) : jsonText (Serde.boolean.write b) = jsonBool b := by
  show jsonText (.bool b) = _
  rw [jsonText]

@[simp] theorem jsonText_unsigned (bits n : ℕ) : jsonText ((Serde.unsigned bits).write n) = decimal n := by
  show jsonText (.num n) = _
  rw [jsonText]
  rfl

@[simp] theorem jsonText_signed (bits : ℕ) (n : ℤ) : jsonText ((Serde.signed bits).write n) = jsonInt n := by
  show jsonText (.num n) = _
  rw [jsonText]

@[simp] theorem jsonText_errorCode (code : ErrorCode) : jsonText (ErrorCode.serde.write code) = code.json := by
  cases code <;> decide

@[simp] theorem jsonText_transferEntryKind (kind : TransferEntryKind) :
    jsonText (TransferEntryKind.serde.write kind) = kind.json := by
  cases kind <;> decide

@[simp] theorem jsonText_fsEntryKind (kind : FsEntryKind) : jsonText (FsEntryKind.serde.write kind) = kind.json := by
  cases kind <;> decide

@[simp] theorem jsonText_hashAlgorithm (hash : HashAlgorithm) : jsonText (HashAlgorithm.serde.write hash) = hash.json := by
  cases hash
  decide

@[simp] theorem jsonText_contentEncoding (encoding : ContentEncoding) :
    jsonText (ContentEncoding.serde.write encoding) = encoding.json := by
  cases encoding <;> decide

@[simp] theorem jsonText_strings (texts : List Str) :
    jsonText ((Serde.list .string).write texts) = jsonArray (texts.map jsonString) := jsonText_list jsonText_string texts

@[simp] theorem jsonText_optionalString (o : Option Str) :
    jsonText (optionalString.write o) = jsonOption jsonString o := jsonText_option jsonText_string o

@[simp] theorem jsonText_optionalUnsigned (bits : ℕ) (o : Option ℕ) :
    jsonText ((optionalUnsigned bits).write o) = jsonOption decimal o := jsonText_option (jsonText_unsigned bits) o

@[simp] theorem jsonText_optionalEntryKind (o : Option FsEntryKind) :
    jsonText (optionalEntryKind.write o) = jsonOption FsEntryKind.json o := jsonText_option jsonText_fsEntryKind o

@[simp] theorem jsonText_optionalHash (o : Option HashAlgorithm) :
    jsonText (optionalHash.write o) = jsonOption HashAlgorithm.json o := jsonText_option jsonText_hashAlgorithm o

/-- The text of a record is that of its members. -/
theorem jsonText_record {α β : Type} {schema : Schema β} {build : β → α} {parts : α → β} {hnodup : schema.names.Nodup}
    {hparts : ∀ a, build (parts a) = a} (a : α) :
    jsonText ((Serde.record schema build parts hnodup hparts).write a) =
      jsonObject (jsonMemberTexts (schema.members (parts a))) := by
  show jsonText (.obj _) = _
  rw [jsonText]

@[simp] theorem jsonMemberTexts_nil (b : Unit) : jsonMemberTexts (Schema.nil.members b) = [] := rfl

@[simp] theorem jsonMemberTexts_cons {α β : Type} (f : Field α) (rest : Schema β) (a : α) (b : β) :
    jsonMemberTexts ((Schema.cons f rest).members (a, b)) =
      (f.name, jsonText (f.serde.write a)) :: jsonMemberTexts (rest.members b) := rfl

@[simp] theorem jsonText_transferRoot (r : TransferRoot) : jsonText (TransferRoot.serde.write r) = r.json := by
  rw [TransferRoot.serde, jsonText_record, TransferRoot.json]
  simp

@[simp] theorem jsonText_transferEntry (e : TransferEntry) : jsonText (TransferEntry.serde.write e) = e.json := by
  rw [TransferEntry.serde, jsonText_record, TransferEntry.json]
  simp

@[simp] theorem jsonText_capabilitySet (c : CapabilitySet) : jsonText (CapabilitySet.serde.write c) = c.json := by
  rw [CapabilitySet.serde, jsonText_record, CapabilitySet.json]
  simp

@[simp] theorem jsonText_agentFsStat (s : AgentFsStat) : jsonText (AgentFsStat.serde.write s) = s.json := by
  rw [AgentFsStat.serde, jsonText_record, AgentFsStat.json]
  simp

@[simp] theorem jsonText_agentFsListEntry (e : AgentFsListEntry) : jsonText (AgentFsListEntry.serde.write e) = e.json := by
  rw [AgentFsListEntry.serde, jsonText_record, AgentFsListEntry.json]
  simp

@[simp] theorem jsonText_agentFsReadResult (r : AgentFsReadResult) : jsonText (AgentFsReadResult.serde.write r) = r.json := by
  rw [AgentFsReadResult.serde, jsonText_record, AgentFsReadResult.json]
  simp

@[simp] theorem jsonText_agentFsWriteResult (r : AgentFsWriteResult) : jsonText (AgentFsWriteResult.serde.write r) = r.json := by
  rw [AgentFsWriteResult.serde, jsonText_record, AgentFsWriteResult.json]
  simp

@[simp] theorem jsonText_agentFsMkdirResult (r : AgentFsMkdirResult) : jsonText (AgentFsMkdirResult.serde.write r) = r.json := by
  rw [AgentFsMkdirResult.serde, jsonText_record, AgentFsMkdirResult.json]
  simp

@[simp] theorem jsonText_agentFsRmResult (r : AgentFsRmResult) : jsonText (AgentFsRmResult.serde.write r) = r.json := by
  rw [AgentFsRmResult.serde, jsonText_record, AgentFsRmResult.json]
  simp

@[simp] theorem jsonText_agentFsMoveResult (r : AgentFsMoveResult) : jsonText (AgentFsMoveResult.serde.write r) = r.json := by
  rw [AgentFsMoveResult.serde, jsonText_record, AgentFsMoveResult.json]
  simp

@[simp] theorem jsonText_transferRoots (roots : List TransferRoot) :
    jsonText ((Serde.list TransferRoot.serde).write roots) = jsonArray (roots.map TransferRoot.json) :=
  jsonText_list jsonText_transferRoot roots

@[simp] theorem jsonText_transferEntries (entries : List TransferEntry) :
    jsonText ((Serde.list TransferEntry.serde).write entries) = jsonArray (entries.map TransferEntry.json) :=
  jsonText_list jsonText_transferEntry entries

@[simp] theorem jsonText_agentFsListEntries (entries : List AgentFsListEntry) :
    jsonText ((Serde.list AgentFsListEntry.serde).write entries) = jsonArray (entries.map AgentFsListEntry.json) :=
  jsonText_list jsonText_agentFsListEntry entries

/-- The text of a message of a tagged enumeration. -/
theorem jsonText_tagged {M T : Type} (tagged : Tagged M T) (m : M) :
    jsonText (tagged.serde.write m) = jsonObject ((tagged.key, jsonString (tagged.name (tagged.view m).1)) ::
      jsonMemberTexts ((tagged.variant (tagged.view m).1).schema.members (tagged.view m).2)) := by
  show jsonText (.obj _) = _
  rw [jsonText, jsonMemberTexts, jsonText]

theorem jsonTagged_snakeCase {variant : Str} {type_ : String} (h : snakeCase variant = str type_)
    (fields : List (Str × Bytes)) :
    jsonObject ((str "type", jsonString (snakeCase variant)) :: fields) = jsonTagged type_ fields := by
  rw [h, jsonTagged]

/-- The text of a request is the one it has everywhere. -/
theorem jsonText_request (request : ControlRequest) :
    jsonText (ControlRequest.serde.write request) = request.json := by
  rw [ControlRequest.serde, jsonText_tagged]
  cases request <;>
    dsimp only [ControlRequest.tagged, ControlRequest.view, RequestTag.variant, ControlRequest.json, RequestTag.debug] <;>
    simp <;>
    exact jsonTagged_snakeCase (by decide) _

theorem jsonText_response (response : ControlResponse) :
    jsonText (ControlResponse.serde.write response) = response.json := by
  rw [ControlResponse.serde, jsonText_tagged]
  cases response <;>
    dsimp only [ControlResponse.tagged, ControlResponse.view, ResponseTag.variant, Variant.ofOne, ControlResponse.json,
      ResponseTag.debug] <;>
    simp <;>
    exact jsonTagged_snakeCase (by decide) _

/-! ### On the wire -/

/-- What `serde_json` is besides: texts of values, values of texts, and the text
of the error for a value that is of another form than the type. -/
structure JsonTexts where
  print : Json → Bytes
  parse : Bytes → Except Str Json
  mismatch : Json → Str

namespace JsonTexts

variable {M : Type} (texts : JsonTexts)

/-- `serde_json::from_slice`. -/
def decode (serde : Serde M) (bytes : Bytes) : Except Str M :=
  match texts.parse bytes with
  | .error message => .error message
  | .ok j =>
    match serde.read j with
    | some m => .ok m
    | none => .error (texts.mismatch j)

/-- What is printed of a message is parsed to what it was, whichever of its fields
with defaults are dropped. -/
def Faithful (serde : Serde M) (m : M) : Prop :=
  ∀ dropped : List Bytes → Bool, (∀ path, dropped path = true → serde.Marked m path) →
    texts.parse (texts.print ((serde.write m).remove dropped)) = .ok ((serde.write m).remove dropped)

/-- A message that is sent is received as it was, under its request id and only
as a frame of its kind, and can be read without its fields with defaults. -/
structure SurvivesWire (serde : Serde M) (m : M) : Prop where
  received : ∀ (kind : FrameKind) (requestId : UInt32) (before rest : Bytes), ∃ sent frame,
    writeJsonFrame before kind requestId (texts.print (serde.write m)) = (.ok (), before ++ sent) ∧
      readFrame (sent ++ rest) = (.ok frame, rest) ∧ frame.header.requestId = requestId ∧
      decodeJson (texts.decode serde) frame kind = .ok m ∧
      ∀ expected, expected ≠ kind →
        decodeJson (texts.decode serde) frame expected = .error (.unexpectedFrameKind expected kind)
  defaults : ∀ dropped : List Bytes → Bool, (∀ path, dropped path = true → serde.Marked m path) →
    texts.decode serde (texts.print ((serde.write m).remove dropped)) = .ok (serde.reset dropped m)

variable {texts} {serde : Serde M} {m : M}

theorem decode_remove (hm : serde.Typed m) (hfaithful : texts.Faithful serde m) {dropped : List Bytes → Bool}
    (hdropped : ∀ path, dropped path = true → serde.Marked m path) :
    texts.decode serde (texts.print ((serde.write m).remove dropped)) = .ok (serde.reset dropped m) := by
  simp only [decode, hfaithful dropped hdropped, serde.read_remove m hm dropped hdropped]

theorem survivesWire (hm : serde.Typed m) (hfaithful : texts.Faithful serde m)
    (hfits : (texts.print (serde.write m)).length ≤ maxPayloadLen) : texts.SurvivesWire serde m where
  received kind requestId before rest := by
    have hdecode : texts.decode serde (texts.print ((serde.write m).remove fun _ => false)) =
        .ok (serde.reset (fun _ => false) m) :=
      decode_remove hm hfaithful fun _ h => absurd h Bool.false_ne_true
    rw [Json.remove_none, serde.reset_none] at hdecode
    refine ⟨_, _, writeJsonFrame_of_le hfits kind requestId before, readFrame_messageFrame hfits kind requestId rest, rfl,
      decodeJson_messageFrame hdecode kind requestId, fun expected hne => ?_⟩
    exact if_pos hne.symm
  defaults dropped hdropped := decode_remove hm hfaithful hdropped

end JsonTexts

/-- **Control messages survive the wire.** -/
theorem control_messages_survive_wire (texts : JsonTexts) :
    (∀ request : ControlRequest, ControlRequest.serde.Typed request → texts.Faithful ControlRequest.serde request →
      (texts.print (ControlRequest.serde.write request)).length ≤ maxPayloadLen →
        texts.SurvivesWire ControlRequest.serde request) ∧
      ∀ response : ControlResponse, ControlResponse.serde.Typed response → texts.Faithful ControlResponse.serde response →
        (texts.print (ControlResponse.serde.write response)).length ≤ maxPayloadLen →
          texts.SurvivesWire ControlResponse.serde response :=
  ⟨fun _ hrequest hfaithful hfits => JsonTexts.survivesWire hrequest hfaithful hfits,
    fun _ hresponse hfaithful hfits => JsonTexts.survivesWire hresponse hfaithful hfits⟩

/-- A request with a field that may be missing. -/
def moveRequest : ControlRequest := .fsMove (str "/a") (str "/b") true

theorem marked_moveRequest {path : List Bytes} (h : ControlRequest.serde.Marked moveRequest path) :
    path = [str "overwrite"] := by
  simpa [ControlRequest.serde, Tagged.serde, ControlRequest.tagged, ControlRequest.view, moveRequest,
    RequestTag.variant, Schema.Marked, Field.Marked, Field.required, Field.default, Serde.string, Serde.boolean,
    Serde.leaf] using h

/-- A response with a field that may be missing. -/
def madeResponse : ControlResponse := .fsMkdirResult ⟨str "/a", true⟩

theorem marked_madeResponse {path : List Bytes} (h : ControlResponse.serde.Marked madeResponse path) :
    path = [str "result", str "created"] := by
  simpa [ControlResponse.serde, Tagged.serde, ControlResponse.tagged, ControlResponse.view, madeResponse,
    ResponseTag.variant, Variant.ofOne, AgentFsMkdirResult.serde, Serde.record, Schema.Marked, Field.Marked,
    Field.required, Field.default, Serde.string, Serde.boolean, Serde.leaf] using h

/-- A value without the one field that is marked. -/
def without (path : List Bytes) (j : Json) : Json := j.remove fun dropped => dropped = path

theorem JsonTexts.faithful_of_one {M : Type} {texts : JsonTexts} {serde : Serde M} {m : M} {path : List Bytes}
    (hmarked : ∀ {other}, serde.Marked m other → other = path)
    (hwhole : texts.parse (texts.print (serde.write m)) = .ok (serde.write m))
    (hwithout : texts.parse (texts.print (without path (serde.write m))) = .ok (without path (serde.write m))) :
    texts.Faithful serde m := by
  intro dropped hdropped
  cases h : dropped path with
  | false =>
    have hnone : dropped = fun _ => false := by
      funext other
      by_contra hother
      rw [Bool.not_eq_false] at hother
      rw [hmarked (hdropped other hother), h] at hother
      cases hother
    rw [hnone, Json.remove_none]
    exact hwhole
  | true =>
    have hone : dropped = fun other => decide (other = path) := by
      funext other
      by_cases hother : other = path
      · rw [hother, h, decide_eq_true rfl]
      · rw [decide_eq_false hother, ← Bool.not_eq_true]
        exact fun htrue => hother (hmarked (hdropped other htrue))
    rw [hone]
    exact hwithout

/-- A parser that knows the texts of some values. -/
def knownTexts (values : List Json) : JsonTexts where
  print := jsonText
  parse bytes :=
    match Serde.named values jsonText bytes with
    | some j => .ok j
    | none => .error (str "expected value")
  mismatch _ := str "invalid type"

theorem knownTexts_parse {values : List Json} (hdistinct : (values.map jsonText).Nodup) {j : Json} (hj : j ∈ values) :
    (knownTexts values).parse ((knownTexts values).print j) = .ok j := by
  show (match Serde.named values jsonText (jsonText j) with
    | some j => Except.ok j
    | none => .error (str "expected value")) = _
  rw [Serde.named_name hdistinct hj]

/-- The two messages, each whole and without that field. -/
def exchanged : List Json :=
  [ControlRequest.serde.write moveRequest, without [str "overwrite"] (ControlRequest.serde.write moveRequest),
    ControlResponse.serde.write madeResponse, without [str "result", str "created"] (ControlResponse.serde.write madeResponse)]

theorem control_messages_survive_wire_move :
    (knownTexts exchanged).SurvivesWire ControlRequest.serde moveRequest ∧
      (knownTexts exchanged).SurvivesWire ControlResponse.serde madeResponse := by
  have hdistinct : (exchanged.map jsonText).Nodup := by decide +kernel
  have hknown : ∀ j ∈ exchanged, (knownTexts exchanged).parse ((knownTexts exchanged).print j) = .ok j :=
    fun j hj => knownTexts_parse hdistinct hj
  obtain ⟨hrequests, hresponses⟩ := control_messages_survive_wire (knownTexts exchanged)
  refine ⟨hrequests moveRequest ?_ ?_ (by decide +kernel), hresponses madeResponse ?_ ?_ (by decide +kernel)⟩
  · exact ⟨trivial, trivial, trivial, trivial⟩
  · exact JsonTexts.faithful_of_one marked_moveRequest (hknown _ (by simp [exchanged])) (hknown _ (by simp [exchanged]))
  · exact ⟨⟨trivial, trivial, trivial⟩, trivial⟩
  · exact JsonTexts.faithful_of_one marked_madeResponse (hknown _ (by simp [exchanged])) (hknown _ (by simp [exchanged]))

/-- A message of a peer that does not know the field. -/
example : ControlRequest.serde.reset (fun path => path = [str "overwrite"]) moveRequest =
    .fsMove (str "/a") (str "/b") false := by
  decide +kernel

end Rsdb
