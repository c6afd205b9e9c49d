/-
# Requests and their answers

`handle_request` runs the handler of a request. The filesystem handlers and exec
turn an error of theirs into an `Error` response; the handlers of the shells let
it leave, and the connection is closed without an answer.

A run of a request is a run of its handler, with whatever the operating system
and the child give (`RequestRun`). `request_answered_iff` says which runs put
exactly one response on the wire that ends the request, after whole frames.
-/
import Rsdb.Daemon.Exec
import Rsdb.Daemon.FsOps
import Rsdb.Daemon.Shell

namespace Rsdb

namespace Daemon

open Prog Session

/-- The code of a filesystem request that failed. -/
def classifyFsError (err : AnyhowError) : ErrorCode :=
  if err.chain.contains .invalidRequest then .invalidRequest
  else if err.chain.contains .precondition then .fsPreconditionFailed
  else if err.hasIoErrorKind .notFound then .fsNotFound
  else if err.hasIoErrorKind .permissionDenied then .fsPermissionDenied
  else if err.hasIoErrorKind .storageFull then .fsNoSpace
  else .internal

/-! ### Unstreamed exec -/

/-- What `output()` gives under the timeout. -/
inductive CommandOutput where
  | failed (err : IoError)
  | timedOut
  | finished (status : Option Int32) (stdout stderr : Bytes)

/-- A command without streaming: it is run to its end, and answered. -/
def executeCommand (state : ServerState) (command : Str) (timeoutSecs : Option ℕ) (output : CommandOutput) :
    Except AnyhowError ControlResponse :=
  if isBlank command then .error (.bail (str "command must not be empty"))
  else
    match output with
    | .failed err => .error ((AnyhowError.ofIo err).context (str "failed to execute command: " ++ command))
    | .timedOut => .ok (timeoutResponse (execTimeout timeoutSecs state.execTimeoutSecs))
    | .finished status stdout stderr => .ok (.execResult (exitCode status) (utf8Lossy stdout) (utf8Lossy stderr) false)

/-- The answer where a command could not be run. -/
def execFailedResponse (err : AnyhowError) : ControlResponse := .error .execFailed err.message

/-- The response of an unstreamed exec. -/
def execResponse : Except AnyhowError ControlResponse → ControlResponse
  | .ok response => response
  | .error err => execFailedResponse err

/-! ### The filesystem requests -/

/-- A handler, with its result as a response. -/
def responding {α : Type} (handler : Act α) (response : α → ControlResponse) : Act ControlResponse :=
  handler >>= fun a => .pure (response a)

/-- What a filesystem request does. -/
def fsOperation (env : FsEnv) : ControlRequest → Option (Act ControlResponse)
  | .fsStat path hash => some (responding (handleFsStat env.sha256 env.reads env.mtimeUnixMs path hash) .fsStat)
  | .fsList path recursive maxDepth includeHidden hash =>
    some (responding (handleFsList env path ⟨recursive, maxDepth, includeHidden, hash⟩) .fsList)
  | .fsRead path encoding maxBytes => some (responding (handleFsRead env path encoding maxBytes) .fsReadResult)
  | .fsWrite path content encoding mode createParent atomic ifMissing ifSha256 =>
    some (responding
      (handleFsWrite env ⟨path, content, encoding, mode, createParent, atomic, ifMissing, ifSha256⟩) .fsWriteResult)
  | .fsMkdir path parents mode => some (responding (handleFsMkdir path parents mode) .fsMkdirResult)
  | .fsRm path recursive force ifExists => some (responding (handleFsRm env path recursive force ifExists) .fsRmResult)
  | .fsMove source destination overwrite =>
    some (responding (handleFsMove env.depth source destination overwrite) .fsMoveResult)
  | _ => none

/-- The requests that only look. -/
def IsQuery : ControlRequest → Prop
  | .fsStat .. | .fsList .. | .fsRead .. => True
  | _ => False

theorem fsOperation_readsOnly {env : FsEnv} {request : ControlRequest} {operation : Act ControlResponse}
    (hquery : IsQuery request) (h : fsOperation env request = some operation) :
    All Call.ReadsOnly operation := by
  cases request with
  | fsStat path hash =>
    obtain rfl := Option.some.inj h
    exact all_bind.mpr ⟨handleFsStat_readsOnly env path hash, fun _ _ => trivial⟩
  | fsList path recursive maxDepth includeHidden hash =>
    obtain rfl := Option.some.inj h
    exact all_bind.mpr ⟨handleFsList_readsOnly env path _, fun _ _ => trivial⟩
  | fsRead path encoding maxBytes =>
    obtain rfl := Option.some.inj h
    exact all_bind.mpr ⟨handleFsRead_readsOnly env path encoding maxBytes, fun _ _ => trivial⟩
  | _ => exact hquery.elim

/-- A request that only looks leaves the tree as it is. -/
theorem fsOperation_query {env : FsEnv} {request : ControlRequest} {operation : Act ControlResponse}
    (hquery : IsQuery request) (h : fsOperation env request = some operation) (os : Os) :
    Os.SameTree os (run Os.step operation os).2 := Os.run_readsOnly (fsOperation_readsOnly hquery h) os

section

variable (json : ControlResponse → Bytes) (requestId : UInt32)

/-- What a filesystem handler writes, with its result; an error of its own, or
one of writing the response, becomes an `Error` response. -/
def fsRequest (result : Except AnyhowError ControlResponse) : Except AnyhowError Unit × Bytes :=
  match result with
  | .error err => sendError json requestId [] (classifyFsError err) err
  | .ok response =>
    match writeJsonFrame [] .response requestId (json response) with
    | (.ok (), stream) => (.ok (), stream)
    | (.error err, stream) => sendError json requestId stream (classifyFsError err) err

/-- `handle_exec_request` for a streamed command. -/
def execStreamed (state : ServerState) (timeoutSecs : Option ℕ) (trace : Session.Trace RelayCall.Answer)
    (stop : Stop AnyhowError Unit) : Except AnyhowError Unit × Bytes :=
  match streamCommandOutput json requestId state timeoutSecs trace stop with
  | (.ok (), stream) => (.ok (), stream)
  | (.error err, stream) => writeJsonFrame stream .response requestId (json (execFailedResponse err))

/-- The answer to a ping. -/
def pongResponse (state : ServerState) : ControlResponse := .pong state.serverId protocolVersion.toNat

/-- The answer that says what the daemon can do. -/
def capabilitiesResponse (state : ServerState) : ControlResponse := .capabilities state.serverId capabilities

/-! ### Runs -/

/-- A run of `handle_request` to its end, with what the operating system, the
child and the client give. -/
inductive RequestRun (state : ServerState) (env : FsEnv) : ControlRequest → Type where
  | ping : RequestRun state env .ping
  | getCapabilities : RequestRun state env .getCapabilities
  | exec (command : Str) (args : List Str) (cwd : Option Str) (timeoutSecs : Option ℕ) (output : CommandOutput) :
    RequestRun state env (.exec command args cwd timeoutSecs false)
  | execStream (command : Str) (args : List Str) (cwd : Option Str) (timeoutSecs : Option ℕ)
    (spawned : Except IoError Unit) (fuel : ℕ) (trace : Session.Trace RelayCall.Answer) (stop : Stop AnyhowError Unit)
    (run : Exec (execSession json requestId command spawned fuel) trace stop) :
    RequestRun state env (.exec command args cwd timeoutSecs true)
  | fs (request : ControlRequest) (operation : Act ControlResponse) (known : fsOperation env request = some operation)
    (trace : Prog.Trace Call.Answer) (result : Except AnyhowError ControlResponse)
    (run : Exec operation trace (.ofExcept result)) : RequestRun state env request
  | pipeShell (command : Option Str) (args : List Str) (term : Option Str) (rows cols : Option ℕ)
    (spawned : Except IoError Unit) (fuel : ℕ) (trace : Session.Trace RelayCall.Answer) (result : Except AnyhowError Unit)
    (run : Exec (pipeShellSession json requestId state.shellPath command args spawned fuel) trace (.ofExcept result)) :
    RequestRun state env (.shell command args false term rows cols)
  | ptyShell (command : Option Str) (args : List Str) (term : Option Str) (rows cols : Option ℕ)
    (allocated : Except ℕ Unit) (spawned cloned : Except IoError Unit) (fuel : ℕ)
    (trace : Session.Trace RelayCall.Answer) (result : Except AnyhowError Unit)
    (run : Exec (ptyShellSession json requestId state.shellPath command args allocated spawned cloned fuel) trace
      (.ofExcept result)) :
    RequestRun state env (.shell command args true term rows cols)

variable {json requestId} {state : ServerState} {env : FsEnv} {request : ControlRequest}

/-- What `handle_request` returns, and what the connection holds then. -/
def RequestRun.handled : RequestRun json requestId state env request → Except AnyhowError Unit × Bytes
  | .ping => writeJsonFrame [] .response requestId (json (pongResponse state))
  | .getCapabilities => writeJsonFrame [] .response requestId (json (capabilitiesResponse state))
  | .exec command _ _ timeoutSecs output =>
    writeJsonFrame [] .response requestId (json (execResponse (executeCommand state command timeoutSecs output)))
  | .execStream _ _ _ timeoutSecs _ _ trace stop _ => execStreamed json requestId state timeoutSecs trace stop
  | .fs _ _ _ _ result _ => fsRequest json requestId result
  | .pipeShell _ _ _ _ _ _ _ trace result _ => (result, taken trace)
  | .ptyShell _ _ _ _ _ _ _ _ _ trace result _ => (result, taken trace)

/-! ### What should be on the wire -/

/-- A response that ends a request: its result, or an error. -/
def Ends : ControlRequest → ControlResponse → Prop
  | .ping, .pong .. | .getCapabilities, .capabilities .. | .exec .., .execResult .. | .fsStat .., .fsStat ..
  | .fsList .., .fsList .. | .fsRead .., .fsReadResult .. | .fsWrite .., .fsWriteResult ..
  | .fsMkdir .., .fsMkdirResult .. | .fsRm .., .fsRmResult .. | .fsMove .., .fsMoveResult .. | .shell .., .shellExit ..
  | _, .error .. => True
  | _, _ => False

/-- The wire holds whole frames and exactly one response that ends the request,
the last one. -/
def RequestRun.Answered (run : RequestRun json requestId state env request) : Prop :=
  Ended json requestId (Ends request) run.handled.2

variable (json)

/-- The response that answers a filesystem request. -/
def fsAnswer (result : Except AnyhowError ControlResponse) : ControlResponse :=
  let failed (err : AnyhowError) := ControlResponse.error (classifyFsError err) err.message
  match result with
  | .error err => failed err
  | .ok response =>
    if Fits json response then response else failed (.ofProtocol (.payloadTooLarge (json response).length))

variable {json}

/-- The response a shell ends with, when the loop has been left without a failure. -/
def lastResponse (start : Relay) (es : List RelayEvent) : ControlResponse :=
  match es.getLast? with
  | some (.stdin (some err)) => execFailedResponse err
  | _ => .shellExit (exitCode (es.foldl Relay.after start).exitStatus.join)

/-- There is an answer, and it can be sent: the response fits a frame, a streamed
exec is cancelled between two frames, a shell can be started and nothing fails
while it runs, and nobody reports to a terminal's. -/
def RequestRun.CanAnswer : RequestRun json requestId state env request → Prop
  | .ping => Fits json (pongResponse state)
  | .getCapabilities => Fits json (capabilitiesResponse state)
  | .exec command _ _ timeoutSecs output => Fits json (execResponse (executeCommand state command timeoutSecs output))
  | .execStream _ _ _ _ _ _ trace stop _ =>
    match stop with
    | .returned () => True
    | .failed err => Fits json (execFailedResponse err)
    | .waiting => AtBoundary requestId trace
  | .fs _ _ _ _ result _ => Fits json (fsAnswer json result)
  | .pipeShell command args _ _ _ spawned _ trace _ _ =>
    ∃ display, displayCommand state.shellPath command args = .ok display ∧ spawned = .ok () ∧
      Fits json (.shellStarted display) ∧ (∀ event ∈ events trace, eventFailure pipeFailures event = none) ∧
      Fits json (lastResponse .start (events trace))
  | .ptyShell command args _ _ _ allocated spawned cloned _ trace _ _ =>
    ∃ display, displayCommand state.shellPath command args = .ok display ∧ allocated = .ok () ∧ spawned = .ok () ∧
      cloned = .ok () ∧ Fits json (.shellStarted display) ∧ (∀ event ∈ events trace, ¬ event.Leaves) ∧
      Fits json (lastResponse ⟨true, false, none⟩ (events trace))

/-! ### One response -/

variable {ends : ControlResponse → Prop}

/-- Frames none of which ends the request do not answer it. -/
theorem not_ended_of_frames {fs : List Frame} (hvalid : ∀ f ∈ fs, f.Valid)
    (hnone : ∀ f ∈ fs, ∀ r, ends r → f ≠ responseFrame json requestId r) :
    ¬ Ended json requestId ends (framesBytes fs) := by
  rintro ⟨before, terminal, hends, hwhole, -, hwire⟩
  have hframes : fs = before ++ [responseFrame json requestId terminal] := framesBytes_inj hvalid hwhole hwire
  refine hnone (responseFrame json requestId terminal) ?_ terminal hends rfl
  rw [hframes]
  exact List.mem_append_right _ List.mem_cons_self

/-- Nothing on the wire answers no request. -/
theorem not_ended_nil : ¬ Ended json requestId ends [] := by
  have hnot : ¬ Ended json requestId ends (framesBytes []) :=
    not_ended_of_frames (fun _ h => by cases h) fun _ h => by cases h
  exact hnot

/-- A response after frames none of which ends the request. -/
theorem ended_writeJsonFrame_iff {fs : List Frame} {response : ControlResponse} (hends : ends response)
    (hvalid : ∀ f ∈ fs, f.Valid) (hnone : ∀ f ∈ fs, ∀ r, ends r → f ≠ responseFrame json requestId r) :
    Ended json requestId ends (writeJsonFrame (framesBytes fs) .response requestId (json response)).2 ↔
      Fits json response := by
  by_cases hfits : Fits json response
  · rw [writeJsonFrame_of_fits json requestId hfits]
    refine iff_of_true ?_ hfits
    have hended := ended_of_frames hends hfits hvalid hnone
    rwa [framesBytes_append, framesBytes_cons, framesBytes_nil, List.append_nil] at hended
  · rw [writeJsonFrame_of_not_fits json requestId hfits]
    exact iff_of_false (not_ended_of_frames hvalid hnone) hfits

theorem ended_response_iff {response : ControlResponse} (hends : ends response) :
    Ended json requestId ends (writeJsonFrame [] .response requestId (json response)).2 ↔ Fits json response := by
  have hiff : Ended json requestId ends (writeJsonFrame (framesBytes []) .response requestId (json response)).2 ↔
      Fits json response := ended_writeJsonFrame_iff hends (fun _ h => by cases h) fun _ h => by cases h
  exact hiff

/-! ### Filesystem requests -/

theorem exec_responding {α : Type} {handler : Act α} {response : α → ControlResponse} {trace : Prog.Trace Call.Answer}
    {r : ControlResponse} (h : Exec (responding handler response) trace (.returned r)) : ∃ a, r = response a := by
  obtain ⟨a, first, rest, -, -, hpure⟩ := exec_bind_returned h
  exact ⟨a, (exec_pure_returned hpure).2⟩

theorem ends_error (request : ControlRequest) (code : ErrorCode) (message : Str) :
    Ends request (.error code message) := by cases request <;> trivial

/-- An operation that returns returns a response of its request. -/
theorem ends_of_fsOperation {operation : Act ControlResponse} (hknown : fsOperation env request = some operation)
    {trace : Prog.Trace Call.Answer} {r : ControlResponse} (h : Exec operation trace (.returned r)) :
    Ends request r := by
  cases request <;> first
    | cases hknown
      obtain ⟨a, rfl⟩ := exec_responding h
      trivial
    | cases hknown

theorem fsRequest_answered_iff {result : Except AnyhowError ControlResponse}
    (hends : ∀ r, result = .ok r → Ends request r) :
    Ended json requestId (Ends request) (fsRequest json requestId result).2 ↔ Fits json (fsAnswer json result) := by
  cases result with
  | error err => exact ended_response_iff (ends_error request _ _)
  | ok response =>
    by_cases hfits : Fits json response
    · have hanswer : fsAnswer json (.ok response) = response := if_pos hfits
      rw [hanswer, fsRequest]
      simp only [writeJsonFrame_of_fits json requestId hfits]
      have hended : Ended json requestId (Ends request) (writeJsonFrame [] .response requestId (json response)).2 ↔
          Fits json response := ended_response_iff (hends response rfl)
      rwa [writeJsonFrame_of_fits json requestId hfits] at hended
    · have hanswer : fsAnswer json (.ok response) = _ := if_neg hfits
      rw [hanswer, fsRequest]
      simp only [writeJsonFrame_of_not_fits json requestId hfits]
      exact ended_response_iff (ends_error request _ _)

/-- An answer that is no error is what the operation has returned. -/
theorem run_of_fsAnswer {operation : Act ControlResponse} {os : Os} {response : ControlResponse}
    (h : fsAnswer json (Prog.run Os.step operation os).1 = response)
    (hno : ∀ code message, response ≠ .error code message) :
    ∃ os', Prog.run Os.step operation os = (.ok response, os') := by
  rcases hrun : Prog.run Os.step operation os with ⟨result, os'⟩
  rw [hrun] at h
  cases result with
  | error err => exact absurd h.symm (hno _ _)
  | ok found =>
    have hanswer : (if Fits json found then found else _) = response := h
    split at hanswer
    · exact ⟨os', by rw [hanswer]⟩
    · exact absurd hanswer.symm (hno _ _)

theorem run_responding {α : Type} {handler : Act α} {response : α → ControlResponse} {os os' : Os}
    {r : ControlResponse} (h : Prog.run Os.step (responding handler response) os = (.ok r, os')) :
    ∃ a, Prog.run Os.step handler os = (.ok a, os') ∧ r = response a := by
  obtain ⟨a, t, hhandler, hpure⟩ := (Prog.run_bind_ok Os.step).mp h
  obtain ⟨hr, rfl⟩ := Prod.mk.inj hpure
  exact ⟨a, hhandler, (Except.ok.inj hr).symm⟩

/-! ### Streamed exec -/

theorem execStreamed_answered_iff {command : Str} {args : List Str} {cwd : Option Str} {timeoutSecs : Option ℕ}
    {spawned : Except IoError Unit} {fuel : ℕ} {trace : Session.Trace RelayCall.Answer} {stop : Stop AnyhowError Unit}
    (hzero : ∀ r, Ends (.exec command args cwd timeoutSecs true) r → 0 ∉ json r)
    (htimeout : Fits json (timeoutResponse (execTimeout timeoutSecs state.execTimeoutSecs)))
    (hexec : Exec (execSession json requestId command spawned fuel) trace stop) :
    Ended json requestId (Ends (.exec command args cwd timeoutSecs true))
        (execStreamed json requestId state timeoutSecs trace stop).2 ↔
      match stop with
      | .returned () => True
      | .failed err => Fits json (execFailedResponse err)
      | .waiting => AtBoundary requestId trace := by
  have hframed : (∀ err, stop ≠ .failed err) →
      (Ended json requestId (Ends (.exec command args cwd timeoutSecs true))
          (streamCommandOutput json requestId state timeoutSecs trace stop).2 ↔
        (stop = .waiting → AtBoundary requestId trace)) :=
    execEnded_iff hzero (fun _ => trivial) (fun _ => trivial) htimeout hexec
  match stop with
  | .returned () =>
    have hended := hframed fun _ h => by cases h
    exact iff_of_true (hended.mpr fun h => by cases h) trivial
  | .failed err =>
    obtain ⟨hruns, htaken⟩ := execSession_failed command spawned fuel trace _ hexec err rfl
    show Ended json requestId _ (writeJsonFrame (taken trace) .response requestId (json (execFailedResponse err))).2 ↔ _
    rw [htaken]
    exact ended_writeJsonFrame_iff trivial (hruns.valid requestId) fun f hf r _ => not_response_of_event hf r
  | .waiting =>
    have hended := hframed fun _ h => by cases h
    rw [execStreamed]
    have hok : (streamCommandOutput json requestId state timeoutSecs trace .waiting).1 = .ok () := by
      rw [streamCommandOutput, writeJsonFrame_of_fits json requestId htimeout]
    rcases hsent : streamCommandOutput json requestId state timeoutSecs trace .waiting with ⟨result, wire⟩
    rw [hsent] at hok hended
    obtain rfl : result = .ok () := hok
    exact hended.trans ⟨fun h => h rfl, fun h _ => h⟩

/-! ### Shells -/

theorem leaves_of_failure {failures : RelayFailures} {event : RelayEvent} {err : AnyhowError}
    (h : eventFailure failures event = some err) : event.Leaves := by
  unfold eventFailure at h
  split at h <;> trivial

/-- Only the last event leaves the loop. -/
theorem getLast?_of_leaves {shell : Bool} {event : RelayEvent} (hleaves : event.Leaves) :
    ∀ {es : List RelayEvent} {relay : Relay}, Runs shell relay es → event ∈ es → es.getLast? = some event
  | e :: es, relay, ⟨_, _, hlast, hruns⟩, hmem => by
    rcases List.mem_cons.mp hmem with rfl | hmem
    · rw [hlast hleaves]
      rfl
    · rw [List.getLast?_cons, getLast?_of_leaves hleaves hruns hmem, Option.getD_some]

variable {start : Relay} {failures : RelayFailures} {answer : AnyhowError → Option ControlResponse}

/-- A session that comes to a response has seen no failure, and the response is
the last one. -/
theorem ShellEnd.response {shell : Bool} {es : List RelayEvent} {r : ControlResponse}
    (hanswer : ∀ err r, answer err = some r → r = execFailedResponse err) (hruns : Runs shell start es)
    (h : ShellEnd start failures answer es (some r)) :
    (∀ event ∈ es, eventFailure failures event = none) ∧ (∀ err, .stdin (some err) ∈ es → answer err ≠ none) ∧
      lastResponse start es = r := by
  generalize hresponse : some r = response at h
  cases h with
  | exit status hended hstays =>
    obtain rfl := Option.some.inj hresponse
    refine ⟨fun event hmem => ?_, fun err hmem => absurd trivial (hstays _ hmem), ?_⟩
    · by_contra hfailure
      obtain ⟨err, herr⟩ := Option.ne_none_iff_exists'.mp hfailure
      exact hstays event hmem (leaves_of_failure herr)
    · unfold lastResponse
      split
      · rename_i err hlast
        exact absurd trivial (hstays _ (List.mem_of_getLast? hlast))
      · rw [hended]
        rfl
  | message err hlast =>
    have hmem : RelayEvent.stdin (some err) ∈ es := List.mem_of_getLast? hlast
    refine ⟨fun event hevent => ?_, fun err' hevent => ?_, ?_⟩
    · by_contra hfailure
      obtain ⟨err', herr⟩ := Option.ne_none_iff_exists'.mp hfailure
      have heq := getLast?_of_leaves (leaves_of_failure herr) hruns hevent
      rw [hlast] at heq
      obtain rfl := Option.some.inj heq
      cases herr
    · have hleaves : RelayEvent.Leaves (.stdin (some err')) := trivial
      have heq := getLast?_of_leaves hleaves hruns hevent
      rw [hlast] at heq
      obtain rfl : err = err' := by simpa using heq
      rw [← hresponse]
      simp
    · unfold lastResponse
      rw [hlast]
      exact (hanswer err r hresponse.symm).symm
  | failure event err hlast hfailure => cases hresponse

/-- Which sessions answer. -/
theorem shellSession_answered_iff {display : Str} {ready : Except AnyhowError Unit}
    {trace : Session.Trace RelayCall.Answer} {result : Except AnyhowError Unit} {command : Option Str} {args : List Str}
    {pty : Bool} {term : Option Str} {rows cols : Option ℕ}
    (hstarted : ∀ r, Ends (.shell command args pty term rows cols) r → json (.shellStarted display) ≠ json r)
    (hanswer : ∀ err r, answer err = some r → r = execFailedResponse err)
    (h : SessionRelays json requestId display ready start failures answer trace (.ofExcept result)) :
    Ended json requestId (Ends (.shell command args pty term rows cols)) (taken trace) ↔
      Fits json (.shellStarted display) ∧ ready = .ok () ∧ (∀ event ∈ events trace, eventFailure failures event = none) ∧
        (∀ err, .stdin (some err) ∈ events trace → answer err ≠ none) ∧ Fits json (lastResponse start (events trace)) := by
  set first := responseFrame json requestId (.shellStarted display)
  have hfirst : ∀ r, Ends (.shell command args pty term rows cols) r → first ≠ responseFrame json requestId r :=
    fun r hr heq => hstarted r hr (congrArg Frame.payload heq)
  have hframes : Runs true start (events trace) → Fits json (.shellStarted display) →
      (∀ f ∈ [first] ++ eventsFrames requestId trace, f.Valid) ∧
        ∀ f ∈ [first] ++ eventsFrames requestId trace, ∀ r, Ends (.shell command args pty term rows cols) r →
          f ≠ responseFrame json requestId r := by
    intro hruns hfits
    rw [List.forall_mem_append, List.forall_mem_append, List.forall_mem_singleton, List.forall_mem_singleton]
    exact ⟨⟨(responseFrame_valid json requestId).mpr hfits, hruns.valid requestId⟩, hfirst,
      fun f hf r _ => not_response_of_event hf r⟩
  rcases h with ⟨hfits, hready, hruns, hrelays⟩ | ⟨hfits, ⟨err, hready⟩, -, hstop⟩ | ⟨hfits, -, htrace⟩
  · obtain ⟨hvalid, hnone⟩ := hframes hruns hfits
    cases result with
    | ok u =>
      obtain ⟨r, hend, hr, htaken⟩ := hrelays
      obtain ⟨hfailures, hmessages, hlast⟩ := hend.response hanswer hruns
      have hends : Ends (.shell command args pty term rows cols) r := by
        rw [← hlast]
        unfold lastResponse
        split <;> trivial
      rw [htaken]
      exact iff_of_true (ended_of_frames hends hr hvalid hnone) ⟨hfits, hready, hfailures, hmessages, by rwa [hlast]⟩
    | error err =>
      obtain ⟨⟨response, hend, hnot⟩, htaken⟩ := hrelays
      rw [htaken]
      refine iff_of_false (not_ended_of_frames hvalid hnone) ?_
      rintro ⟨-, -, hfailures, hmessages, hlast⟩
      cases response with
      | some r => exact hnot r rfl ((hend.response hanswer hruns).2.2 ▸ hlast)
      | none =>
        generalize hresponse : none = response at hend
        cases hend with
        | exit status _ _ => cases hresponse
        | message err hlast => exact hmessages err (List.mem_of_getLast? hlast) hresponse.symm
        | failure event err hlast hfailure =>
          rw [hfailures event (List.mem_of_getLast? hlast)] at hfailure
          cases hfailure
  · refine iff_of_false ?_ fun hright => ?_
    · have htaken : taken trace = framesBytes [first] := by
        cases result with
        | ok u => exact hstop.elim
        | error err => exact hstop
      rw [htaken]
      exact not_ended_of_frames (List.forall_mem_singleton.mpr ((responseFrame_valid json requestId).mpr hfits))
        (List.forall_mem_singleton.mpr hfirst)
    · rw [hready] at hright
      cases hright.2.1
  · rw [htrace]
    exact iff_of_false not_ended_nil fun hright => hfits hright.1

/-- A session that ends before the shell has started. -/
theorem not_answered_of_fail {err : AnyhowError} {trace : Session.Trace RelayCall.Answer} {stop : Stop AnyhowError Unit}
    (h : Exec (.fail err : RelaySession Unit) trace stop) : ¬ Ended json requestId ends (taken trace) := by
  obtain ⟨rfl, -⟩ := exec_fail_iff.mp h
  exact not_ended_nil

theorem pipeShell_answered_iff {shell : Str} {command : Option Str} {args : List Str} {term : Option Str}
    {rows cols : Option ℕ} {spawned : Except IoError Unit} {fuel : ℕ} {trace : Session.Trace RelayCall.Answer}
    {result : Except AnyhowError Unit}
    (hstarted : ∀ display r, Ends (.shell command args false term rows cols) r →
      json (.shellStarted display) ≠ json r)
    (h : Exec (pipeShellSession json requestId shell command args spawned fuel) trace (.ofExcept result)) :
    Ended json requestId (Ends (.shell command args false term rows cols)) (taken trace) ↔
      ∃ display, displayCommand shell command args = .ok display ∧ spawned = .ok () ∧
        Fits json (.shellStarted display) ∧ (∀ event ∈ events trace, eventFailure pipeFailures event = none) ∧
        Fits json (lastResponse .start (events trace)) := by
  unfold pipeShellSession at h
  cases hdisplay : displayCommand shell command args with
  | error err =>
    rw [hdisplay] at h
    refine iff_of_false (not_answered_of_fail h) ?_
    rintro ⟨display, hok, -⟩
    cases hok
  | ok display =>
    rw [hdisplay] at h
    cases spawned with
    | error err =>
      refine iff_of_false (not_answered_of_fail h) ?_
      rintro ⟨-, -, hok, -⟩
      cases hok
    | ok u =>
      have hmessage : ∀ err, Always (Sent json requestId (stdinAnswer err))
          (sendResponse json requestId (.error .execFailed err.message) []) :=
        fun err => sendResponse_sent json requestId (.error .execFailed err.message)
      have hrelays := shellSession_relays json requestId display (.ok ()) .start hmessage fuel trace _ h
      rw [shellSession_answered_iff (hstarted display) (fun _ _ h => (Option.some.inj h).symm) hrelays]
      constructor
      · rintro ⟨hfits, -, hfailures, -, hlast⟩
        exact ⟨display, rfl, rfl, hfits, hfailures, hlast⟩
      · rintro ⟨display', hok, -, hfits, hfailures, hlast⟩
        obtain rfl := Except.ok.inj hok
        exact ⟨hfits, rfl, hfailures, fun _ _ => by simp, hlast⟩

theorem ptyShell_answered_iff {shell : Str} {command : Option Str} {args : List Str} {term : Option Str}
    {rows cols : Option ℕ} {allocated : Except ℕ Unit} {spawned cloned : Except IoError Unit} {fuel : ℕ}
    {trace : Session.Trace RelayCall.Answer} {result : Except AnyhowError Unit}
    (hstarted : ∀ display r, Ends (.shell command args true term rows cols) r →
      json (.shellStarted display) ≠ json r)
    (h : Exec (ptyShellSession json requestId shell command args allocated spawned cloned fuel) trace
      (.ofExcept result)) :
    Ended json requestId (Ends (.shell command args true term rows cols)) (taken trace) ↔
      ∃ display, displayCommand shell command args = .ok display ∧ allocated = .ok () ∧ spawned = .ok () ∧
        cloned = .ok () ∧ Fits json (.shellStarted display) ∧ (∀ event ∈ events trace, ¬ event.Leaves) ∧
        Fits json (lastResponse ⟨true, false, none⟩ (events trace)) := by
  unfold ptyShellSession at h
  cases hdisplay : displayCommand shell command args with
  | error err =>
    rw [hdisplay] at h
    refine iff_of_false (not_answered_of_fail h) ?_
    rintro ⟨display, hok, -⟩
    cases hok
  | ok display =>
    rw [hdisplay] at h
    cases allocated with
    | error errno =>
      refine iff_of_false (not_answered_of_fail h) ?_
      rintro ⟨-, -, hok, -⟩
      cases hok
    | ok u =>
      cases spawned with
      | error err =>
        refine iff_of_false (not_answered_of_fail h) ?_
        rintro ⟨-, -, -, hok, -⟩
        cases hok
      | ok u =>
        have hmessage : ∀ err : AnyhowError, Always (Sent json requestId none) (.fail err : RelaySession Unit) :=
          fun err => always_fail ⟨rfl, rfl, fun _ h => by cases h⟩
        have hrelays := @shellSession_relays json requestId display _ ⟨true, false, none⟩ _ (fun _ => none) _ hmessage
          fuel trace _ h
        rw [shellSession_answered_iff (hstarted display) (fun _ _ h => by cases h) hrelays]
        constructor
        · rintro ⟨hfits, hcloned, hfailures, hmessages, hlast⟩
          refine ⟨display, rfl, rfl, rfl, ?_, hfits, fun event hmem hleaves => ?_, hlast⟩
          · cases cloned with
            | ok u => rfl
            | error err => cases hcloned
          · have hfailure := hfailures event hmem
            match event, hleaves with
            | .stdout (.error err), _ => cases hfailure
            | .stderr (.error err), _ => cases hfailure
            | .exit (.error err), _ => cases hfailure
            | .stdin (some err), _ => exact hmessages err hmem rfl
        · rintro ⟨display', hok, -, -, rfl, hfits, hstays, hlast⟩
          obtain rfl := Except.ok.inj hok
          refine ⟨hfits, rfl, fun event hmem => ?_, fun err hmem => absurd trivial (hstays _ hmem), hlast⟩
          by_contra hfailure
          obtain ⟨err, herr⟩ := Option.ne_none_iff_exists'.mp hfailure
          exact hstays event hmem (leaves_of_failure herr)

/-! ### Every request -/

/-- **A request is answered exactly when it comes to a response that can be
sent.** For every ping, exec, filesystem and shell request, all answers of the
operating system and every output of the child: a run of its handler puts on the
wire whole frames with exactly one response that ends the request, the last, if
and only if `CanAnswer` holds of it. Of the JSON texts it is assumed that they
hold no zero byte, that no final response has the text of a `ShellStarted`, and
that the error of a timeout fits a frame. -/
theorem request_answered_iff (run : RequestRun json requestId state env request)
    (hzero : ∀ r, Ends request r → 0 ∉ json r)
    (hstarted : ∀ display r, Ends request r → json (.shellStarted display) ≠ json r)
    (htimeout : ∀ command args cwd timeoutSecs, request = .exec command args cwd timeoutSecs true →
      Fits json (timeoutResponse (execTimeout timeoutSecs state.execTimeoutSecs))) :
    run.Answered ↔ run.CanAnswer := by
  cases run with
  | ping => exact ended_response_iff trivial
  | getCapabilities => exact ended_response_iff trivial
  | exec command args cwd timeoutSecs output =>
    refine ended_response_iff ?_
    unfold executeCommand
    split
    · trivial
    · cases output <;> trivial
  | execStream command args cwd timeoutSecs spawned fuel trace stop hexec =>
    have hanswered := execStreamed_answered_iff hzero (htimeout command args cwd timeoutSecs rfl) hexec
    cases stop <;> exact hanswered
  | fs _ operation known trace result hexec =>
    refine fsRequest_answered_iff fun r hr => ?_
    have hreturned : Exec operation trace (.returned r) := by rwa [hr] at hexec
    exact ends_of_fsOperation known hreturned
  | pipeShell command args term rows cols spawned fuel trace result hexec =>
    exact pipeShell_answered_iff hstarted hexec
  | ptyShell command args term rows cols allocated spawned cloned fuel trace result hexec =>
    exact ptyShell_answered_iff hstarted hexec

end

/-! ### A blank command -/

/-- A daemon whose digest of a file is its content. -/
def testFsEnv : FsEnv where
  sha256 bytes := bytes
  base64 := ⟨fun bytes => bytes, .ok⟩
  nonce := 0
  reads := 8
  depth := 8
  mtimeUnixMs _ := none

/-- What is said of an empty command. -/
def blankError : AnyhowError := .bail (str "command must not be empty")

/-- Exec of a blank command is answered with an error. -/
def blankExec : RequestRun ControlResponse.json 7 testState testFsEnv (.exec [] [] none none true) :=
  .execStream [] [] none none (.ok ()) 1 [] (.failed blankError) (.fail blankError)

theorem json_shellStarted_ne_error (display : Str) (code : ErrorCode) (message : Str) :
    ControlResponse.json (.shellStarted display) ≠ ControlResponse.json (.error code message) := by
  intro h
  have hstarted : (ControlResponse.json (.shellStarted display)).take 13 = str "\x7b\"type\":\"shel" := rfl
  have herror : (ControlResponse.json (.error code message)).take 13 = str "\x7b\"type\":\"erro" := rfl
  rw [h, herror] at hstarted
  exact absurd hstarted (by decide)

theorem json_shellStarted_ne_execResult (display : Str) (status : ℤ) (stdout stderr : Str) (timedOut : Bool) :
    ControlResponse.json (.shellStarted display) ≠ ControlResponse.json (.execResult status stdout stderr timedOut) := by
  intro h
  have hstarted : (ControlResponse.json (.shellStarted display)).take 13 = str "\x7b\"type\":\"shel" := rfl
  have hresult : (ControlResponse.json (.execResult status stdout stderr timedOut)).take 13 =
      str "\x7b\"type\":\"exec" := rfl
  rw [h, hresult] at hstarted
  exact absurd hstarted (by decide)

theorem request_answered_blank_exec : blankExec.Answered := by
  refine (request_answered_iff blankExec ?_ ?_ ?_).mpr (by decide +kernel : Fits _ _)
  · intro r hr
    cases r with
    | execResult status stdout stderr timedOut => exact zero_notMem_execResult status stdout stderr timedOut
    | error code message => exact zero_notMem_error code message
    | _ => exact hr.elim
  · intro display r hr
    cases r with
    | execResult status stdout stderr timedOut => exact json_shellStarted_ne_execResult display _ _ _ _
    | error code message => exact json_shellStarted_ne_error display code message
    | _ => exact hr.elim
  · intro command args cwd timeoutSecs hrequest
    cases hrequest
    exact timeoutResponse_fits

/-- A shell of a blank command. -/
def blankShell : RequestRun ControlResponse.json 7 testState testFsEnv (.shell (some []) [] false none none none) :=
  .pipeShell (some []) [] none none none (.ok ()) 1 [] (.error (.bail (str "shell command must not be empty"))) (.fail _)

/-- Nothing is sent, and the connection is closed. -/
theorem request_unanswered_blank_shell : blankShell.handled.2 = [] ∧ ¬ blankShell.Answered :=
  ⟨rfl, not_ended_nil⟩

end Daemon

end Rsdb
