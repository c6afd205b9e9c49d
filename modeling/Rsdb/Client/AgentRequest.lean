/-
# The requests of the agent commands

An agent command is a program over its requests to the daemon and its own side
(`AgentCall`); an answer may be anything the other side sends, or an error of the
connection. An error comes to the user as a code, and which code it is depends on
what is in its chain (`map_transport_error`, `map_operation_error`).

A program that only looks has nothing among what it changes (`Looks.changesOf`).
-/
import Rsdb.Client.ExecStream
import Rsdb.Client.ManifestFilter
import Rsdb.Client.RemoteRoots
import Rsdb.Client.TransferState
import Rsdb.Transfer.Pull

namespace Rsdb

namespace Client

namespace Agent

open Prog (Exec Trace Stop All all_bind exec_bind_returned exec_pure_returned)

/-! ### Errors -/

/-- What the agent commands look for in the chain of an error. -/
inductive CommandCause where
  | remote (code : ErrorCode) (message : Str)
  | elapsed
  | connectionRefused
  | unsupportedVersion
  | io (kind : IoErrorKind)
  | other
  deriving DecidableEq

/-- An `anyhow::Error`, as the agent commands classify it. -/
structure CommandError where
  message : Str
  chain : List CommandCause
  deriving DecidableEq

/-- An error that is a message only. -/
def CommandError.bail (message : Str) : CommandError := ⟨message, [.other]⟩

/-- What the daemon answered, if that is the cause. -/
def CommandCause.remote? : CommandCause → Option (ErrorCode × Str)
  | remote code message => some (code, message)
  | _ => none

/-- `remote_control_error`. -/
def remoteControlErrorIn (err : CommandError) : Option (ErrorCode × Str) := err.chain.findSome? CommandCause.remote?

/-- The code and whether a retry may help, where the daemon has not reported an error. -/
def transportCode (command : Str) (err : CommandError) : Str × Bool :=
  if .elapsed ∈ err.chain then (str "connection.timeout", true)
  else if .connectionRefused ∈ err.chain then (str "connection.refused", true)
  else if .unsupportedVersion ∈ err.chain then (str "connection.protocol_mismatch", false)
  else if str "transfer" <+: command ∧ .io .notFound ∈ err.chain then (str "fs.not_found", false)
  else if .io .permissionDenied ∈ err.chain then (str "fs.permission_denied", false)
  else (str "internal.error", false)

/-- What the agent says of a request that failed. -/
def mapTransportError (command : Str) (target : Option Str) (err : CommandError) : AgentCommandFailure :=
  match remoteControlErrorIn err with
  | some (code, message) => mapRemoteError command (target.getD []) code message []
  | none => ⟨(transportCode command err).1, err.message, target, (transportCode command err).2, [], 1⟩

/-- What the agent says of an operation that failed, with its details. -/
def mapOperationError (command : Str) (target : Option Str) (err : CommandError) (details : List (Str × Detail)) :
    AgentCommandFailure :=
  match remoteControlErrorIn err with
  | some (code, message) => mapRemoteError command (target.getD []) code message details
  | none =>
    if .io .permissionDenied ∈ err.chain then
      ⟨str "fs.permission_denied", err.message, target, false, details, 1⟩
    else if .io .storageFull ∈ err.chain then
      ⟨str "fs.no_space", err.message, target, false, details, 1⟩
    else { mapTransportError command target err with details := details }

/-- What was asked for cannot be done. -/
def invalidRequestFailure (message : Str) (target : Option Str) (details : List (Str × Detail)) : AgentCommandFailure :=
  ⟨str "invalid.request", message, target, false, details, 1⟩

/-- The two sides differ after a transfer. -/
def transferVerificationFailure (target message : Str) (details : List (Str × Detail)) : AgentCommandFailure :=
  ⟨str "transfer.verification_failed", message, some target, false, details, 1⟩

/-! ### Calls -/

/-- What a transfer asks of the daemon, and of its own side. -/
inductive AgentCall where
  | buildManifest (specs : List Str)
  | localState (root : Path) (includeHash : Bool)
  | localRoots (destination : Str) (roots : List TransferRoot)
  | request (request : ControlRequest)
  | push (manifest : LocalBatchManifest) (remotePath : Str)
  | pull (specs : List Str) (destination : Str)
  | clock

/-- `clock` is the time since the epoch in nanoseconds, unless it is before that. -/
abbrev AgentCall.Answer : AgentCall → Type
  | buildManifest _ => Except CommandError LocalBatchManifest
  | localState _ _ => Except CommandError TransferState
  | localRoots _ _ => Except CommandError (List Path)
  | request _ => Except CommandError ControlResponse
  | push _ _ => Except CommandError PushSummary
  | pull _ _ => Except CommandError PullSummary
  | clock => Option ℕ

/-- A command of the agent, over its calls. -/
abbrev AgentProg (α : Type) := Prog AgentCall AgentCall.Answer AgentCommandFailure α

/-- The calls of a command with their answers. -/
abbrev AgentTrace := Trace AgentCall.Answer

/-- `display().to_string()`. -/
def pathText (path : Path) : Str := utf8Lossy path.display

section

variable (codec : Codec) (target : Str)

/-- `agent_request`. -/
def agentRequest (command : Str) (request : ControlRequest) (details : List (Str × Detail)) :
    AgentProg ControlResponse := do
  match ← Prog.ask (AgentCall.request request) with
  | .error err => .fail (mapTransportError command (some target) err)
  | .ok (.error code message) => .fail (mapRemoteError command target code message details)
  | .ok response => pure response

/-- The failure at an answer to something else. -/
def unexpected (response : ControlResponse) : AgentCommandFailure :=
  internalAgentFailure (str "unexpected response from daemon: " ++ codec.debug response)

/-- `remote_fs_stat_request`. -/
def remoteFsStatRequest (path : Str) (hash : Option HashAlgorithm) : AgentProg AgentFsStat :=
  agentRequest target (str "fs.stat") (.fsStat path hash) [(str "path", .text path)] >>= statIn (unexpected codec)

/-- `remote_fs_list_request`. -/
def remoteFsListRequest (path : Str) (hash : Option HashAlgorithm) : AgentProg (List AgentFsListEntry) :=
  agentRequest target (str "fs.list") (.fsList path true none true hash) [(str "path", .text path)] >>=
    listIn (unexpected codec)

/-- `remote_fs_move_request`. -/
def remoteFsMoveRequest (source destination : Str) (overwrite : Bool) : AgentProg Unit := do
  match ← agentRequest target (str "fs.move") (.fsMove source destination overwrite)
      [(str "source", .text source), (str "destination", .text destination)] with
  | .fsMoveResult _ => pure ()
  | other => .fail (unexpected codec other)

/-- `cleanup_remote_path`. -/
def cleanupRemotePath (path : Str) : AgentProg Unit := do
  match ← agentRequest target (str "fs.rm") (.fsRm path true true true) [(str "path", .text path)] with
  | .fsRmResult _ => pure ()
  | other => .fail (unexpected codec other)

/-- An error of the client's own, through `map_err(internal_agent_failure)`. -/
def internally {α : Type} (result : Except AnyhowError α) : AgentProg α :=
  .ofExcept (result.mapError fun err => internalAgentFailure err.message)

/-- `collect_remote_transfer_state`. -/
def collectRemoteTransferState (root : Path) (includeHash : Bool) : AgentProg (Option TransferState) :=
  collectRemotely (fun path => remoteFsStatRequest codec target path (hashWanted includeHash))
    (fun path => remoteFsListRequest codec target path (hashWanted includeHash)) internally root

/-- `resolve_remote_batch_roots`. -/
def resolveRemoteBatchRoots (destination : Str) (roots : List TransferRoot) : AgentProg (List Path) :=
  resolveRemotely (internally (ensureUniqueRootNames roots)) (remoteFsStatRequest codec target destination none)
    (fun message => invalidRequestFailure message (some target) [(str "destination", .text destination)]) destination roots

end

/-! ### What changes the other side -/

/-- A call that may change the other side. -/
def AgentCall.changes : AgentCall → Bool
  | push _ _ => true
  | request (.fsStat _ _) | request (.fsList _ _ _ _ _) => false
  | request _ => true
  | _ => false

/-- The calls that can change the other side. -/
def changesOf (trace : AgentTrace) : AgentTrace := trace.filter fun asked => asked.1.changes

@[simp] theorem changesOf_nil : changesOf [] = [] := rfl

@[simp] theorem changesOf_append (a b : AgentTrace) : changesOf (a ++ b) = changesOf a ++ changesOf b :=
  List.filter_append ..

theorem changesOf_changing {c : AgentCall} (h : c.changes = true) (r : c.Answer) (trace : AgentTrace) :
    changesOf (⟨c, r⟩ :: trace) = ⟨c, r⟩ :: changesOf trace := List.filter_cons_of_pos h

theorem changesOf_looking {c : AgentCall} (h : c.changes = false) (r : c.Answer) (trace : AgentTrace) :
    changesOf (⟨c, r⟩ :: trace) = changesOf trace := List.filter_cons_of_neg (by rw [h]; exact Bool.false_ne_true)

/-- The program changes nothing on the other side. -/
def Looks {α : Type} (x : AgentProg α) : Prop := All (fun c => c.changes = false) x

theorem Looks.changesOf {α : Type} {x : AgentProg α} (h : Looks x) {trace : AgentTrace}
    {stop : Stop AgentCommandFailure α} (hexec : Exec x trace stop) : changesOf trace = [] := by
  refine List.filter_eq_nil_iff.mpr fun asked hasked => ?_
  rw [hexec.forall_mem h asked hasked]
  exact Bool.false_ne_true

theorem Looks.bind {α β : Type} {x : AgentProg α} {f : α → AgentProg β} (hx : Looks x) (hf : ∀ a, Looks (f a)) :
    Looks (x >>= f) := all_bind.mpr ⟨hx, fun a _ => hf a⟩

theorem looks_pure {α : Type} (a : α) : Looks (.pure a) := trivial

theorem looks_fail {α : Type} (failure : AgentCommandFailure) : Looks (.fail failure : AgentProg α) := trivial

theorem looks_ask {c : AgentCall} (h : c.changes = false) : Looks (Prog.ask c) := ⟨h, fun _ => trivial⟩

section

variable {P : AgentCall → Prop} {codec : Codec} {target : Str}

theorem all_ofExcept {α : Type} (r : Except AgentCommandFailure α) : All P (.ofExcept r : AgentProg α) := by
  cases r <;> trivial

theorem all_agentRequest {command : Str} {request : ControlRequest} {details : List (Str × Detail)}
    (h : P (.request request)) : All P (agentRequest target command request details) := by
  refine all_bind.mpr ⟨⟨h, fun _ => trivial⟩, fun answer _ => ?_⟩
  rcases answer with err | response
  · trivial
  · cases response <;> trivial

theorem all_remoteFsStatRequest {path : Str} {hash : Option HashAlgorithm} (h : P (.request (.fsStat path hash))) :
    All P (remoteFsStatRequest codec target path hash) := by
  refine all_bind.mpr ⟨all_agentRequest h, fun response _ => ?_⟩
  cases response <;> trivial

theorem all_remoteFsListRequest {path : Str} {hash : Option HashAlgorithm}
    (h : P (.request (.fsList path true none true hash))) : All P (remoteFsListRequest codec target path hash) := by
  refine all_bind.mpr ⟨all_agentRequest h, fun response _ => ?_⟩
  cases response <;> trivial

theorem all_collectRemoteTransferState {root : Path} {includeHash : Bool}
    (hstat : ∀ path hash, P (.request (.fsStat path hash)))
    (hlist : ∀ path hash, P (.request (.fsList path true none true hash))) :
    All P (collectRemoteTransferState codec target root includeHash) := by
  refine all_bind.mpr ⟨all_remoteFsStatRequest (hstat _ _), fun stat _ => ?_⟩
  split
  · trivial
  · refine all_bind.mpr ⟨all_ofExcept _, fun rootState _ => ?_⟩
    split
    · refine all_bind.mpr ⟨all_remoteFsListRequest (hlist _ _), fun entries _ => ?_⟩
      exact all_bind.mpr ⟨all_ofExcept _, fun state _ => trivial⟩
    · trivial

end

section

variable (codec : Codec) (target : Str)

theorem looks_remoteFsStatRequest (path : Str) (hash : Option HashAlgorithm) :
    Looks (remoteFsStatRequest codec target path hash) := all_remoteFsStatRequest rfl

theorem looks_collectRemoteTransferState (root : Path) (includeHash : Bool) :
    Looks (collectRemoteTransferState codec target root includeHash) :=
  all_collectRemoteTransferState (fun _ _ => rfl) fun _ _ => rfl

theorem looks_resolveRemoteBatchRoots (destination : Str) (roots : List TransferRoot) :
    Looks (resolveRemoteBatchRoots codec target destination roots) := by
  refine Looks.bind (all_ofExcept _) fun _ => ?_
  refine (looks_remoteFsStatRequest codec target _ _).bind fun stat => ?_
  split
  · exact looks_pure _
  · dsimp only
    split
    · exact looks_fail _
    · exact looks_pure _

end

/-! ### Where the roots go -/

section

variable {codec : Codec} {target destination : Str} {roots : List TransferRoot} {trace : AgentTrace} {remoteRoots : List Path}

theorem length_of_resolve
    (h : Exec (resolveRemoteBatchRoots codec target destination roots) trace (.returned remoteRoots)) :
    remoteRoots.length = roots.length := by
  unfold resolveRemoteBatchRoots resolveRemotely at h
  obtain ⟨_, _, _, -, -, h⟩ := exec_bind_returned h
  obtain ⟨stat, _, _, -, -, h⟩ := exec_bind_returned h
  dsimp only at h
  split at h
  · exact (exec_pure_returned h).2 ▸ rfl
  · split at h
    · cases h
    · rw [(exec_pure_returned h).2, List.length_map]

/-- A root is the destination, or a name below it. -/
theorem mem_of_resolve (h : Exec (resolveRemoteBatchRoots codec target destination roots) trace (.returned remoteRoots)) :
    ∀ root ∈ remoteRoots, root = .ofStr destination ∨ ∃ r ∈ roots, root = r.under (.ofStr destination) := by
  unfold resolveRemoteBatchRoots resolveRemotely at h
  obtain ⟨_, _, _, -, -, hstats⟩ := exec_bind_returned h
  obtain ⟨stat, _, _, -, -, hends⟩ := exec_bind_returned hstats
  dsimp only at hends
  split at hends
  · rename_i r
    rw [(exec_pure_returned hends).2]
    refine List.forall_mem_singleton.mpr ?_
    split
    · exact Or.inr ⟨r, List.mem_singleton_self r, rfl⟩
    · exact Or.inl rfl
  · split at hends
    · cases hends
    · rw [(exec_pure_returned hends).2]
      refine fun root hroot => Or.inr ?_
      obtain ⟨r, hr, heq⟩ := List.mem_map.mp hroot
      exact ⟨r, hr, heq.symm⟩

end

end Agent

end Client

end Rsdb
