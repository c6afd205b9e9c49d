/-
# Control messages

The messages of `rsdb-proto`, and the errors that travel in them. A Rust string is
its UTF-8 bytes. The JSON text of a message is a parameter of whatever sends it
(`serde_json` is not part of the repository); `ControlResponse.json` is the text
the derived serialisation documents.
-/
import Rsdb.Proto.Frame

namespace Rsdb

/-- A Rust string, as its UTF-8 bytes. -/
abbrev Str := Bytes

/-- The bytes of an ASCII text. -/
def str (text : String) : Str := text.toList.map fun c => UInt8.ofNat c.toNat

/-- A number as `{}` prints it. -/
def decimal (n : ℕ) : Str := str (Nat.repr n)

/-- `trim().is_empty()`: there is nothing but white space. -/
def isBlank : Str → Bool
  | [] => true
  | 0xC2 :: b :: rest => (b = 0x85 || b = 0xA0) && isBlank rest
  | 0xE1 :: 0x9A :: 0x80 :: rest => isBlank rest
  | 0xE2 :: 0x80 :: b :: rest =>
    ((0x80 ≤ b && b ≤ 0x8A) || b = 0xA8 || b = 0xA9 || b = 0xAF) && isBlank rest
  | 0xE2 :: 0x81 :: 0x9F :: rest => isBlank rest
  | 0xE3 :: 0x80 :: 0x80 :: rest => isBlank rest
  | b :: rest => ((9 ≤ b && b ≤ 13) || b = 32) && isBlank rest

/-- What went wrong, as a response says it. -/
inductive ErrorCode where
  | invalidRequest | capabilityMissing | execFailed | execStartFailed | execTimeout
  | fileTransferFailed | notFound | fsNotFound | fsPermissionDenied | fsPreconditionFailed
  | fsNoSpace | transferInterrupted | transferVerificationFailed | internal
  deriving DecidableEq

/-- What a batch carries: files and directories. -/
inductive TransferEntryKind where
  | file | directory
  deriving DecidableEq

/-- One of the files or directories a batch was asked for. -/
structure TransferRoot where
  sourceName : Str
  kind : TransferEntryKind
  mode : ℕ
  deriving DecidableEq

/-- A file or directory of a batch, by the number of its root and its path below the root. -/
structure TransferEntry where
  rootIndex : ℕ
  relativePath : Str
  kind : TransferEntryKind
  mode : ℕ
  size : ℕ
  deriving DecidableEq

/-- What is at a path. -/
inductive FsEntryKind where
  | file | directory | symlink | other
  deriving DecidableEq

/-- The digests there are. -/
inductive HashAlgorithm where
  | sha256
  deriving DecidableEq

/-- What `fs.stat` answers. Of a path where nothing is, it has the path only. -/
structure AgentFsStat where
  path : Str
  present : Bool
  kind : Option FsEntryKind
  size : Option ℕ
  mode : Option ℕ
  mtimeUnixMs : Option ℕ
  sha256 : Option Str
  deriving DecidableEq

/-- An entry of a listing. -/
structure AgentFsListEntry where
  path : Str
  kind : FsEntryKind
  size : ℕ
  sha256 : Option Str
  deriving DecidableEq

/-- How a message, which is text, carries the bytes of a file. -/
inductive ContentEncoding where
  | utf8 | base64
  deriving DecidableEq

/-- What a daemon can do, as it tells a client. -/
structure CapabilitySet where
  protocolVersion : ℕ
  transports : List Str
  security : List Str
  features : List Str
  deriving DecidableEq

/-- What `fs.read` answers. -/
structure AgentFsReadResult where
  path : Str
  encoding : ContentEncoding
  content : Str
  bytes : ℕ
  truncated : Bool
  deriving DecidableEq

/-- What `fs.write` answers. -/
structure AgentFsWriteResult where
  path : Str
  bytesWritten : ℕ
  mode : Option ℕ
  sha256 : Option Str
  changed : Bool
  deriving DecidableEq

/-- What `fs.mkdir` answers. -/
structure AgentFsMkdirResult where
  path : Str
  created : Bool
  deriving DecidableEq

/-- What `fs.rm` answers. -/
structure AgentFsRmResult where
  path : Str
  removed : Bool
  deriving DecidableEq

/-- What `fs.move` answers. -/
structure AgentFsMoveResult where
  source : Str
  destination : Str
  overwritten : Bool
  deriving DecidableEq

/-- What a client asks. -/
inductive ControlRequest where
  | ping
  | getCapabilities
  | exec (command : Str) (args : List Str) (cwd : Option Str) (timeoutSecs : Option ℕ) (stream : Bool)
  | fsStat (path : Str) (hash : Option HashAlgorithm)
  | fsList (path : Str) (recursive : Bool) (maxDepth : Option ℕ) (includeHidden : Bool)
      (hash : Option HashAlgorithm)
  | fsRead (path : Str) (encoding : ContentEncoding) (maxBytes : Option ℕ)
  | fsWrite (path content : Str) (encoding : ContentEncoding) (mode : Option ℕ)
      (createParent atomic ifMissing : Bool) (ifSha256 : Option Str)
  | fsMkdir (path : Str) (parents : Bool) (mode : Option ℕ)
  | fsRm (path : Str) (recursive force ifExists : Bool)
  | fsMove (source destination : Str) (overwrite : Bool)
  | push (path : Str) (mode : ℕ) (sourceName : Option Str)
  | pull (path : Str)
  | pushBatch (destination : Str) (roots : List TransferRoot) (entries : List TransferEntry)
  | pullBatch (sources : List Str)
  | shell (command : Option Str) (args : List Str) (pty : Bool) (term : Option Str) (rows cols : Option ℕ)
  deriving DecidableEq

/-- What the daemon answers. -/
inductive ControlResponse where
  | pong (serverId : Str) (protocolVersion : ℕ)
  | capabilities (serverId : Str) (capability : CapabilitySet)
  | execResult (status : ℤ) (stdout stderr : Str) (timedOut : Bool)
  | fsStat (stat : AgentFsStat)
  | fsList (entries : List AgentFsListEntry)
  | fsReadResult (result : AgentFsReadResult)
  | fsWriteResult (result : AgentFsWriteResult)
  | fsMkdirResult (result : AgentFsMkdirResult)
  | fsRmResult (result : AgentFsRmResult)
  | fsMoveResult (result : AgentFsMoveResult)
  | pushReady
  | pushComplete (bytesWritten : ℕ)
  | pullMetadata (size mode : ℕ)
  | pullComplete (bytesSent : ℕ)
  | pushBatchReady
  | pushBatchComplete (entriesWritten bytesWritten : ℕ)
  | pullBatchMetadata (roots : List TransferRoot) (entries : List TransferEntry) (totalBytes : ℕ)
  | pullBatchComplete (entriesSent bytesSent : ℕ)
  | shellStarted (command : Str)
  | shellExit (status : ℤ)
  | error (code : ErrorCode) (message : Str)
  deriving DecidableEq

/-! ### The documented JSON text -/

/-- A digit of a `\u` escape, in lower case. -/
def hexDigit (n : ℕ) : UInt8 := if n < 10 then UInt8.ofNat (48 + n) else UInt8.ofNat (87 + n)

/-- A byte inside a JSON string. -/
def jsonEscape (b : UInt8) : Str :=
  if b = 34 then [92, 34]
  else if b = 92 then [92, 92]
  else if b = 8 then [92, 98]
  else if b = 9 then [92, 116]
  else if b = 10 then [92, 110]
  else if b = 12 then [92, 102]
  else if b = 13 then [92, 114]
  else if b < 32 then str "\\u00" ++ [hexDigit (b.toNat / 16), hexDigit (b.toNat % 16)]
  else [b]

/-- A string in quotes, with its escapes. -/
def jsonString (s : Str) : Bytes := [34] ++ s.flatMap jsonEscape ++ [34]

/-- The values, with a comma between two. -/
def jsonCommas : List Bytes → Bytes
  | [] => []
  | [v] => v
  | v :: vs => v ++ 44 :: jsonCommas vs

/-- An array of what is printed already. -/
def jsonArray (vs : List Bytes) : Bytes := [91] ++ jsonCommas vs ++ [93]

/-- An object of what is printed already, in the order given. -/
def jsonObject (fields : List (Str × Bytes)) : Bytes :=
  [123] ++ jsonCommas (fields.map fun f => jsonString f.1 ++ 58 :: f.2) ++ [125]

/-- A code by its name in snake case. -/
def ErrorCode.json : ErrorCode → Bytes
  | invalidRequest => jsonString (str "invalid_request")
  | capabilityMissing => jsonString (str "capability_missing")
  | execFailed => jsonString (str "exec_failed")
  | execStartFailed => jsonString (str "exec_start_failed")
  | execTimeout => jsonString (str "exec_timeout")
  | fileTransferFailed => jsonString (str "file_transfer_failed")
  | notFound => jsonString (str "not_found")
  | fsNotFound => jsonString (str "fs_not_found")
  | fsPermissionDenied => jsonString (str "fs_permission_denied")
  | fsPreconditionFailed => jsonString (str "fs_precondition_failed")
  | fsNoSpace => jsonString (str "fs_no_space")
  | transferInterrupted => jsonString (str "transfer_interrupted")
  | transferVerificationFailed => jsonString (str "transfer_verification_failed")
  | internal => jsonString (str "internal")

/-- A kind of entry by its name. -/
def TransferEntryKind.json : TransferEntryKind → Bytes
  | file => jsonString (str "file")
  | directory => jsonString (str "directory")

/-- A root of a manifest. -/
def TransferRoot.json (r : TransferRoot) : Bytes :=
  jsonObject [(str "source_name", jsonString r.sourceName), (str "kind", r.kind.json),
    (str "mode", decimal r.mode)]

/-- An entry of a manifest. -/
def TransferEntry.json (e : TransferEntry) : Bytes :=
  jsonObject [(str "root_index", decimal e.rootIndex), (str "relative_path", jsonString e.relativePath),
    (str "kind", e.kind.json), (str "mode", decimal e.mode), (str "size", decimal e.size)]

/-- What is at a path, by its name. -/
def FsEntryKind.json : FsEntryKind → Bytes
  | file => jsonString (str "file")
  | directory => jsonString (str "directory")
  | symlink => jsonString (str "symlink")
  | other => jsonString (str "other")

/-- An algorithm by its name. -/
def HashAlgorithm.json : HashAlgorithm → Bytes
  | sha256 => jsonString (str "sha256")

/-- An encoding by its name. -/
def ContentEncoding.json : ContentEncoding → Bytes
  | utf8 => jsonString (str "utf8")
  | base64 => jsonString (str "base64")

/-- The two literals. -/
def jsonBool (b : Bool) : Bytes := str (if b then "true" else "false")

/-- A signed number, with its sign if it has one. -/
def jsonInt : ℤ → Bytes
  | .ofNat n => decimal n
  | .negSucc n => str "-" ++ decimal (n + 1)

/-- An absent value is `null`. -/
def jsonOption {α : Type} (json : α → Bytes) : Option α → Bytes
  | none => str "null"
  | some a => json a

/-- What a daemon can do; the lists are arrays of strings. -/
def CapabilitySet.json (c : CapabilitySet) : Bytes :=
  jsonObject [(str "protocol_version", decimal c.protocolVersion),
    (str "transports", jsonArray (c.transports.map jsonString)),
    (str "security", jsonArray (c.security.map jsonString)),
    (str "features", jsonArray (c.features.map jsonString))]

/-- The answer to `fs.stat`; `present` is called `exists`, and what is not known is `null`. -/
def AgentFsStat.json (s : AgentFsStat) : Bytes :=
  jsonObject [(str "path", jsonString s.path), (str "exists", jsonBool s.present),
    (str "kind", jsonOption FsEntryKind.json s.kind), (str "size", jsonOption decimal s.size),
    (str "mode", jsonOption decimal s.mode), (str "mtime_unix_ms", jsonOption decimal s.mtimeUnixMs),
    (str "sha256", jsonOption jsonString s.sha256)]

/-- An entry of a listing. -/
def AgentFsListEntry.json (e : AgentFsListEntry) : Bytes :=
  jsonObject [(str "path", jsonString e.path), (str "kind", e.kind.json), (str "size", decimal e.size),
    (str "sha256", jsonOption jsonString e.sha256)]

/-- The answer to `fs.read`. -/
def AgentFsReadResult.json (r : AgentFsReadResult) : Bytes :=
  jsonObject [(str "path", jsonString r.path), (str "encoding", r.encoding.json),
    (str "content", jsonString r.content), (str "bytes", decimal r.bytes), (str "truncated", jsonBool r.truncated)]

/-- The answer to `fs.write`. -/
def AgentFsWriteResult.json (r : AgentFsWriteResult) : Bytes :=
  jsonObject [(str "path", jsonString r.path), (str "bytes_written", decimal r.bytesWritten),
    (str "mode", jsonOption decimal r.mode), (str "sha256", jsonOption jsonString r.sha256),
    (str "changed", jsonBool r.changed)]

/-- The answer to `fs.mkdir`. -/
def AgentFsMkdirResult.json (r : AgentFsMkdirResult) : Bytes :=
  jsonObject [(str "path", jsonString r.path), (str "created", jsonBool r.created)]

/-- The answer to `fs.rm`. -/
def AgentFsRmResult.json (r : AgentFsRmResult) : Bytes :=
  jsonObject [(str "path", jsonString r.path), (str "removed", jsonBool r.removed)]

/-- The answer to `fs.move`. -/
def AgentFsMoveResult.json (r : AgentFsMoveResult) : Bytes :=
  jsonObject [(str "source", jsonString r.source), (str "destination", jsonString r.destination),
    (str "overwritten", jsonBool r.overwritten)]

/-- A message of an internally tagged enumeration. -/
def jsonTagged (type_ : String) (fields : List (Str × Bytes)) : Bytes :=
  jsonObject ((str "type", jsonString (str type_)) :: fields)

/-- The text of a request: its name under `type`, and its fields. -/
def ControlRequest.json : ControlRequest → Bytes
  | ping => jsonTagged "ping" []
  | getCapabilities => jsonTagged "get_capabilities" []
  | exec command args cwd timeoutSecs stream =>
    jsonTagged "exec" [(str "command", jsonString command), (str "args", jsonArray (args.map jsonString)),
      (str "cwd", jsonOption jsonString cwd), (str "timeout_secs", jsonOption decimal timeoutSecs),
      (str "stream", jsonBool stream)]
  | fsStat path hash =>
    jsonTagged "fs_stat" [(str "path", jsonString path), (str "hash", jsonOption HashAlgorithm.json hash)]
  | fsList path recursive maxDepth includeHidden hash =>
    jsonTagged "fs_list" [(str "path", jsonString path), (str "recursive", jsonBool recursive),
      (str "max_depth", jsonOption decimal maxDepth), (str "include_hidden", jsonBool includeHidden),
      (str "hash", jsonOption HashAlgorithm.json hash)]
  | fsRead path encoding maxBytes =>
    jsonTagged "fs_read" [(str "path", jsonString path), (str "encoding", encoding.json),
      (str "max_bytes", jsonOption decimal maxBytes)]
  | fsWrite path content encoding mode createParent atomic ifMissing ifSha256 =>
    jsonTagged "fs_write" [(str "path", jsonString path), (str "content", jsonString content),
      (str "encoding", encoding.json), (str "mode", jsonOption decimal mode),
      (str "create_parent", jsonBool createParent), (str "atomic", jsonBool atomic),
      (str "if_missing", jsonBool ifMissing), (str "if_sha256", jsonOption jsonString ifSha256)]
  | fsMkdir path parents mode =>
    jsonTagged "fs_mkdir" [(str "path", jsonString path), (str "parents", jsonBool parents),
      (str "mode", jsonOption decimal mode)]
  | fsRm path recursive force ifExists =>
    jsonTagged "fs_rm" [(str "path", jsonString path), (str "recursive", jsonBool recursive),
      (str "force", jsonBool force), (str "if_exists", jsonBool ifExists)]
  | fsMove source destination overwrite =>
    jsonTagged "fs_move" [(str "source", jsonString source), (str "destination", jsonString destination),
      (str "overwrite", jsonBool overwrite)]
  | push path mode sourceName =>
    jsonTagged "push" [(str "path", jsonString path), (str "mode", decimal mode),
      (str "source_name", jsonOption jsonString sourceName)]
  | pull path => jsonTagged "pull" [(str "path", jsonString path)]
  | pushBatch destination roots entries =>
    jsonTagged "push_batch" [(str "destination", jsonString destination),
      (str "roots", jsonArray (roots.map TransferRoot.json)),
      (str "entries", jsonArray (entries.map TransferEntry.json))]
  | pullBatch sources => jsonTagged "pull_batch" [(str "sources", jsonArray (sources.map jsonString))]
  | shell command args pty term rows cols =>
    jsonTagged "shell" [(str "command", jsonOption jsonString command), (str "args", jsonArray (args.map jsonString)),
      (str "pty", jsonBool pty), (str "term", jsonOption jsonString term), (str "rows", jsonOption decimal rows),
      (str "cols", jsonOption decimal cols)]

/-- The text of a response: its name under `type`, and its fields. -/
def ControlResponse.json : ControlResponse → Bytes
  | pong serverId protocolVersion =>
    jsonTagged "pong" [(str "server_id", jsonString serverId), (str "protocol_version", decimal protocolVersion)]
  | capabilities serverId capability =>
    jsonTagged "capabilities" [(str "server_id", jsonString serverId), (str "capability", capability.json)]
  | execResult status stdout stderr timedOut =>
    jsonTagged "exec_result" [(str "status", jsonInt status), (str "stdout", jsonString stdout),
      (str "stderr", jsonString stderr), (str "timed_out", jsonBool timedOut)]
  | fsStat stat => jsonTagged "fs_stat" [(str "stat", stat.json)]
  | fsList entries => jsonTagged "fs_list" [(str "entries", jsonArray (entries.map AgentFsListEntry.json))]
  | fsReadResult result => jsonTagged "fs_read_result" [(str "result", result.json)]
  | fsWriteResult result => jsonTagged "fs_write_result" [(str "result", result.json)]
  | fsMkdirResult result => jsonTagged "fs_mkdir_result" [(str "result", result.json)]
  | fsRmResult result => jsonTagged "fs_rm_result" [(str "result", result.json)]
  | fsMoveResult result => jsonTagged "fs_move_result" [(str "result", result.json)]
  | pushReady => jsonTagged "push_ready" []
  | pushComplete bytesWritten => jsonTagged "push_complete" [(str "bytes_written", decimal bytesWritten)]
  | pullMetadata size mode => jsonTagged "pull_metadata" [(str "size", decimal size), (str "mode", decimal mode)]
  | pullComplete bytesSent => jsonTagged "pull_complete" [(str "bytes_sent", decimal bytesSent)]
  | pushBatchReady => jsonTagged "push_batch_ready" []
  | pushBatchComplete entriesWritten bytesWritten =>
    jsonTagged "push_batch_complete" [(str "entries_written", decimal entriesWritten),
      (str "bytes_written", decimal bytesWritten)]
  | pullBatchMetadata roots entries totalBytes =>
    jsonTagged "pull_batch_metadata" [(str "roots", jsonArray (roots.map TransferRoot.json)),
      (str "entries", jsonArray (entries.map TransferEntry.json)), (str "total_bytes", decimal totalBytes)]
  | pullBatchComplete entriesSent bytesSent =>
    jsonTagged "pull_batch_complete" [(str "entries_sent", decimal entriesSent), (str "bytes_sent", decimal bytesSent)]
  | shellStarted command => jsonTagged "shell_started" [(str "command", jsonString command)]
  | shellExit status => jsonTagged "shell_exit" [(str "status", jsonInt status)]
  | error code message => jsonTagged "error" [(str "code", code.json), (str "message", jsonString message)]

/-! No text holds a zero byte: what is below a space is escaped. -/

theorem zero_notMem_jsonEscape (b : UInt8) : 0 ∉ jsonEscape b := by
  have hall : ∀ n : Fin 256, 0 ∉ jsonEscape (UInt8.ofNat n.1) := by decide +kernel
  have hb := hall ⟨b.toNat, b.toNat_lt⟩
  rwa [UInt8.ofNat_toNat] at hb

theorem zero_notMem_jsonString (s : Str) : 0 ∉ jsonString s := by
  simp only [jsonString, List.mem_append, List.mem_flatMap, List.mem_singleton, not_or, not_exists, not_and]
  exact ⟨⟨by decide, fun b _ => zero_notMem_jsonEscape b⟩, by decide⟩

theorem toNat_of_mem_toDigits {n : ℕ} {c : Char} (h : c ∈ Nat.toDigits 10 n) : 48 ≤ c.toNat ∧ c.toNat ≤ 57 := by
  have hdigit : c.isDigit = true := Nat.isDigit_of_mem_toDigits (by omega) (by omega) h
  rw [Char.isDigit, Bool.and_eq_true, decide_eq_true_eq, decide_eq_true_eq] at hdigit
  exact ⟨UInt32.le_iff_toNat_le.mp hdigit.1, UInt32.le_iff_toNat_le.mp hdigit.2⟩

/-- A number is printed in digits. -/
theorem digit_of_mem_decimal {n : ℕ} {b : UInt8} (h : b ∈ decimal n) : 48 ≤ b.toNat ∧ b.toNat ≤ 57 := by
  obtain ⟨c, hc, rfl⟩ := List.mem_map.mp h
  rw [Nat.toList_repr] at hc
  have hbounds := toNat_of_mem_toDigits hc
  rw [UInt8.toNat_ofNat']
  omega

theorem decimal_length_le {n k : ℕ} (hk : 0 < k) (h : n < 10 ^ k) : (decimal n).length ≤ k := by
  rw [decimal, str, List.length_map, String.length_toList]
  exact (Nat.length_repr_le_iff hk).mpr h

theorem decimal_length_pos (n : ℕ) : 0 < (decimal n).length := by
  rw [decimal, str, List.length_map, String.length_toList]
  exact Nat.length_repr_pos

/-- Different numbers are printed differently. -/
theorem decimal_injective {n m : ℕ} (h : decimal n = decimal m) : n = m := by
  have hdigits : ∀ k, (decimal k).map (fun b => Char.ofNat b.toNat) = Nat.toDigits 10 k := by
    intro k
    rw [decimal, str, Nat.toList_repr, List.map_map]
    conv_rhs => rw [← List.map_id (Nat.toDigits 10 k)]
    refine List.map_congr_left fun c hc => ?_
    have hbounds := toNat_of_mem_toDigits hc
    have hbyte : (UInt8.ofNat c.toNat).toNat = c.toNat := UInt8.toNat_ofNat_of_lt' (by show c.toNat < 256; omega)
    rw [Function.comp_apply, hbyte, Char.ofNat_toNat, id]
  have hsame := congrArg (List.map fun b : UInt8 => Char.ofNat b.toNat) h
  rw [hdigits, hdigits] at hsame
  rw [← Nat.ofDigitChars_ten_toDigits (n := n), hsame, Nat.ofDigitChars_ten_toDigits]

theorem zero_notMem_decimal (n : ℕ) : 0 ∉ decimal n := by
  intro h
  have hdigit := digit_of_mem_decimal h
  rw [UInt8.toNat_zero] at hdigit
  omega

theorem zero_notMem_jsonInt (n : ℤ) : 0 ∉ jsonInt n := by
  cases n with
  | ofNat n => exact zero_notMem_decimal n
  | negSucc n =>
    rw [jsonInt, List.mem_append, not_or]
    exact ⟨by decide, zero_notMem_decimal _⟩

theorem zero_notMem_jsonCommas : ∀ {vs : List Bytes}, (∀ v ∈ vs, 0 ∉ v) → 0 ∉ jsonCommas vs
  | [], _ => by simp [jsonCommas]
  | [v], h => h v List.mem_cons_self
  | v :: w :: vs, h => by
    rw [List.forall_mem_cons] at h
    have hcommas : jsonCommas (v :: w :: vs) = v ++ 44 :: jsonCommas (w :: vs) := rfl
    rw [hcommas, List.mem_append, List.mem_cons, not_or, not_or]
    exact ⟨h.1, by decide, zero_notMem_jsonCommas h.2⟩

theorem zero_notMem_jsonTagged (type_ : String) {fields : List (Str × Bytes)} (h : ∀ f ∈ fields, 0 ∉ f.2) :
    0 ∉ jsonTagged type_ fields := by
  have hfields : ∀ v ∈ ((str "type", jsonString (str type_)) :: fields).map fun f => jsonString f.1 ++ 58 :: f.2,
      0 ∉ v := by
    intro v hv
    obtain ⟨f, hf, rfl⟩ := List.mem_map.mp hv
    rw [List.mem_append, List.mem_cons, not_or, not_or]
    refine ⟨zero_notMem_jsonString f.1, by decide, ?_⟩
    rcases List.mem_cons.mp hf with rfl | hf
    · exact zero_notMem_jsonString _
    · exact h f hf
  rw [jsonTagged, jsonObject, List.mem_append, List.mem_append, not_or, not_or]
  exact ⟨⟨by decide, zero_notMem_jsonCommas hfields⟩, by decide⟩

/-! ### Errors -/

/-- A `std::io::Error`: its kind and its text. -/
structure IoError where
  kind : IoErrorKind
  message : Str
  deriving DecidableEq

/-- What the classifiers look for in the chain of an `anyhow::Error`. -/
inductive Cause where
  | io (kind : IoErrorKind) | precondition | invalidRequest | remote (code : ErrorCode) | other
  deriving DecidableEq

/-- An `anyhow::Error`: the text of its outermost context, and its chain. -/
structure AnyhowError where
  message : Str
  chain : List Cause
  deriving DecidableEq

namespace AnyhowError

/-- `bail!`. -/
def bail (message : Str) : AnyhowError := ⟨message, [.other]⟩

/-- An I/O error through `?`. -/
def ofIo (err : IoError) : AnyhowError := ⟨err.message, [.io err.kind]⟩

/-- `with_context`. -/
def context (err : AnyhowError) (message : Str) : AnyhowError := ⟨message, .other :: err.chain⟩

/-- An I/O error of the kind is somewhere in the chain. -/
def hasIoErrorKind (err : AnyhowError) (kind : IoErrorKind) : Bool := err.chain.contains (.io kind)

end AnyhowError

/-- The text of an error number, or of tokio for the end of a stream. -/
def IoErrorKind.text : IoErrorKind → Str
  | notFound => str "No such file or directory (os error 2)"
  | permissionDenied => str "Permission denied (os error 13)"
  | alreadyExists => str "File exists (os error 17)"
  | notADirectory => str "Not a directory (os error 20)"
  | isADirectory => str "Is a directory (os error 21)"
  | directoryNotEmpty => str "Directory not empty (os error 39)"
  | filesystemLoop => str "Too many levels of symbolic links (os error 40)"
  | resourceBusy => str "Device or resource busy (os error 16)"
  | invalidInput => str "Invalid argument (os error 22)"
  | storageFull => str "No space left on device (os error 28)"
  | unexpectedEof => str "early eof"
  | connectionReset => str "Connection reset by peer (os error 104)"
  | brokenPipe => str "Broken pipe (os error 32)"
  | other => str "Input/output error (os error 5)"

/-- The error of a kind with the text the system has for it. -/
def IoErrorKind.toError (kind : IoErrorKind) : IoError := ⟨kind, kind.text⟩

/-- A kind of frame as `{:?}` prints it. -/
def FrameKind.debug : FrameKind → Str
  | request => str "Request"
  | response => str "Response"
  | event => str "Event"
  | stream => str "Stream"

/-- A channel as `{:?}` prints it. -/
def StreamChannel.debug : StreamChannel → Str
  | file => str "File"
  | stdin => str "Stdin"
  | stdout => str "Stdout"
  | stderr => str "Stderr"

/-- A code as `{:?}` prints it. -/
def ErrorCode.debug : ErrorCode → Str
  | invalidRequest => str "InvalidRequest"
  | capabilityMissing => str "CapabilityMissing"
  | execFailed => str "ExecFailed"
  | execStartFailed => str "ExecStartFailed"
  | execTimeout => str "ExecTimeout"
  | fileTransferFailed => str "FileTransferFailed"
  | notFound => str "NotFound"
  | fsNotFound => str "FsNotFound"
  | fsPermissionDenied => str "FsPermissionDenied"
  | fsPreconditionFailed => str "FsPreconditionFailed"
  | fsNoSpace => str "FsNoSpace"
  | transferInterrupted => str "TransferInterrupted"
  | transferVerificationFailed => str "TransferVerificationFailed"
  | internal => str "Internal"

/-- A kind of entry as `{:?}` prints it. -/
def TransferEntryKind.debug : TransferEntryKind → Str
  | file => str "File"
  | directory => str "Directory"

/-- The texts with `sep` between two. -/
def joined (sep : Str) : List Str → Str
  | [] => []
  | [t] => t
  | t :: ts => t ++ sep ++ joined sep ts

/-- An array of bytes as `{:?}` prints it. -/
def debugBytes (bytes : Bytes) : Str :=
  str "[" ++ joined (str ", ") (bytes.map fun b => decimal b.toNat) ++ str "]"

/-- The text of a protocol error. -/
def ProtocolError.display : ProtocolError → Str
  | .io kind => str "I/O error: " ++ kind.text
  | .json message => str "JSON error: " ++ message
  | .invalidMagic bytes => str "invalid magic bytes: " ++ debugBytes bytes
  | .unsupportedVersion v => str "unsupported protocol version: " ++ decimal v.toNat
  | .unknownFrameKind k => str "unknown frame kind: " ++ decimal k.toNat
  | .unknownStreamChannel c => str "unknown stream channel: " ++ decimal c.toNat
  | .invalidDiscoveryMagic => str "invalid discovery magic bytes"
  | .payloadTooLarge n => str "payload too large: " ++ decimal n ++ str " bytes"
  | .discoveryPayloadTooLarge n => str "discovery payload too large: " ++ decimal n ++ str " bytes"
  | .unexpectedFrameKind expected actual =>
    str "expected frame kind " ++ expected.debug ++ str ", got " ++ actual.debug

/-- A protocol error through `?`. -/
def AnyhowError.ofProtocol (err : ProtocolError) : AnyhowError :=
  ⟨err.display, match err with | .io kind => [.other, .io kind] | _ => [.other]⟩

/-- `write_json_frame`, with the JSON of the message given. -/
def writeJsonFrame {W : Type} [AsyncWrite W] (writer : W) (kind : FrameKind) (requestId : UInt32)
    (json : Bytes) : Except AnyhowError Unit × W :=
  match writeFrame writer kind requestId json with
  | (.ok (), writer) => (.ok (), writer)
  | (.error err, writer) => (.error (.ofProtocol err), writer)

/-! ### Reading messages -/

/-- What `serde` and `Debug` derive for the messages. -/
structure Codec where
  request : ControlRequest → Bytes
  response : ControlResponse → Bytes
  decodeRequest : Bytes → Except Str ControlRequest
  decodeResponse : Bytes → Except Str ControlResponse
  debug : ControlResponse → Str

/-- The documented texts, and a parser that knows those of some messages. -/
def Codec.documented (requests : List ControlRequest) (responses : List ControlResponse) : Codec where
  request := ControlRequest.json
  response := ControlResponse.json
  decodeRequest bytes :=
    match requests.find? fun r => r.json = bytes with
    | some request => .ok request
    | none => .error (str "expected value")
  decodeResponse bytes :=
    match responses.find? fun r => r.json = bytes with
    | some response => .ok response
    | none => .error (str "expected value")
  debug response := response.json

theorem Codec.documented_decodeResponse {requests : List ControlRequest} {responses : List ControlResponse} {text : Bytes}
    {response : ControlResponse} (h : (Codec.documented requests responses).decodeResponse text = .ok response) :
    response ∈ responses ∧ response.json = text := by
  simp only [Codec.documented] at h
  split at h
  · rename_i found hfind
    obtain rfl := Except.ok.inj h
    exact ⟨List.mem_of_find?_eq_some hfind, by simpa using List.find?_some hfind⟩
  · cases h

/-- `decode_json`, with the JSON parser given. -/
def decodeJson {α : Type} (decode : Bytes → Except Str α) (frame : Frame) (expected : FrameKind) :
    Except ProtocolError α :=
  if frame.header.kind ≠ expected then .error (.unexpectedFrameKind expected frame.header.kind)
  else
    match decode frame.payload with
    | .ok a => .ok a
    | .error message => .error (.json message)

/-- The frame of a message. -/
def messageFrame (kind : FrameKind) (requestId : UInt32) (json : Bytes) : Frame := mkFrame kind 0 requestId json

theorem writeJsonFrame_of_le {json : Bytes} (h : json.length ≤ maxPayloadLen) (kind : FrameKind)
    (requestId : UInt32) (stream : Bytes) :
    writeJsonFrame stream kind requestId json = (.ok (), stream ++ (messageFrame kind requestId json).bytes) := by
  rw [writeJsonFrame, writeFrame, writeHeaderAndPayload_of_le stream kind 0 requestId h]
  simp [messageFrame, mkFrame, Frame.bytes]

theorem readFrame_messageFrame {json : Bytes} (h : json.length ≤ maxPayloadLen) (kind : FrameKind)
    (requestId : UInt32) (rest : Bytes) :
    readFrame ((messageFrame kind requestId json).bytes ++ rest) = (.ok (messageFrame kind requestId json), rest) :=
  readFrame_bytes (mkFrame_valid h) rest

/-- A message that is read back. -/
theorem decodeJson_messageFrame {α : Type} {decode : Bytes → Except Str α} {json : Bytes} {a : α}
    (h : decode json = .ok a) (kind : FrameKind) (requestId : UInt32) :
    decodeJson decode (messageFrame kind requestId json) kind = .ok a := by
  have hkind : (messageFrame kind requestId json).header.kind = kind := rfl
  have hpayload : (messageFrame kind requestId json).payload = json := rfl
  rw [decodeJson, if_neg (by simp [hkind]), hpayload, h]

end Rsdb
