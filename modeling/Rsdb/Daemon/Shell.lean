/-
# Shell sessions

`handle_pipe_shell` answers `ShellStarted`, relays the child's output with the
loop of streamed exec, and ends with `ShellExit`. A second task feeds the
client's stdin frames to the child; a failure of its reports to the loop, which
then answers `ExecFailed` and leaves, whatever the child has still to say.
`handle_pty_shell` has one pipe, and leaves without an answer.

A run is a pair of runs: the loop's, and the stdin task's, whose message the
`select!` gets only when the task has ended with it (`PipeShellRun`). The shell
reports the child's output and status exactly when no failure's message is picked
(`pipe_shell_reports_iff`).
-/
import Rsdb.Daemon.Relay
import Rsdb.Daemon.Service

namespace Rsdb

namespace Daemon

open Prog Session

/-! ### The command -/

/-- A byte that means itself to the shell. -/
def isShellSafe (b : UInt8) : Bool :=
  (97 ≤ b && b ≤ 122) || (65 ≤ b && b ≤ 90) || (48 ≤ b && b ≤ 57) || (str "_-./:@+=").contains b

/-- An argument as the shell reads it back. -/
def shellQuote (value : Str) : Str :=
  if value = [] then [39, 39]
  else if value.all isShellSafe then value
  else [39] ++ value.flatMap (fun b => if b = 39 then [39, 34, 39, 34, 39] else [b]) ++ [39]

/-- The command line of a command and its arguments. -/
def joinShellCommand (command : Str) (args : List Str) : Str := joined [32] ((command :: args).map shellQuote)

/-- The command line a shell session shows. -/
def displayCommand (shell : Str) (command : Option Str) (args : List Str) : Except AnyhowError Str :=
  match command with
  | some command =>
    if isBlank command then .error (.bail (str "shell command must not be empty"))
    else .ok (shell ++ str " -lc " ++ joinShellCommand command args)
  | none => .ok (shell ++ str " -l -i")

/-! ### The task that feeds stdin -/

/-- What the task that feeds a command does. -/
inductive StdinCall where
  /-- `read_stream_frame_into`. -/
  | read
  | write (data : Bytes)
  | flush
  | shutdown
  /-- Nothing answers this one. -/
  | never

/-- What its calls can be answered with. -/
abbrev StdinCall.Answer : StdinCall → Type
  | read => Except ProtocolError (StreamFrameHeader × Bytes)
  | write _ | flush => Except IoError Unit
  | shutdown => Unit
  | never => Empty

/-- `ProtocolError::Io`, as the loop reports it. -/
def stdinFailure (err : IoError) : AnyhowError := ⟨str "I/O error: " ++ err.message, [.other, .io err.kind]⟩

section

variable (json : ControlResponse → Bytes) (requestId : UInt32)

/-- A frame of another request. -/
def frameIdMismatch (actual : UInt32) : IoError :=
  ⟨.other, str "stream frame request id mismatch: expected " ++ decimal requestId.toNat ++ str ", got " ++
    decimal actual.toNat⟩

/-- A frame of another channel. -/
def unexpectedChannel (actual : StreamChannel) : IoError :=
  ⟨.other, str "unexpected stream channel: expected " ++ StreamChannel.stdin.debug ++ str ", got " ++ actual.debug⟩

/-- A payload to the child: what fails, if something does. -/
def feed (payload : Bytes) : Prog StdinCall StdinCall.Answer Empty (Option AnyhowError) :=
  if payload = [] then .pure none
  else
    .call (.write payload) fun
      | .error err => .pure (some (stdinFailure err))
      | .ok () =>
        .call .flush fun
          | .error err => .pure (some (stdinFailure err))
          | .ok () => .pure none

/-- The task, with the message it leaves for the loop. `fuel` counts frames. -/
def stdinTask : ℕ → Prog StdinCall StdinCall.Answer Empty (Option AnyhowError)
  | 0 => .call .never Empty.elim
  | fuel + 1 =>
    .call .read fun
      | .error (.io .unexpectedEof) => .call .shutdown fun _ => .pure none
      | .error err => .pure (some (.ofProtocol err))
      | .ok (header, payload) =>
        if header.requestId ≠ requestId then .pure (some (stdinFailure (frameIdMismatch requestId header.requestId)))
        else if header.channel ≠ .stdin then .pure (some (stdinFailure (unexpectedChannel header.channel)))
        else
          feed payload >>= fun
            | some err => .pure (some err)
            | none => if header.eof then .call .shutdown fun _ => .pure none else stdinTask fuel

/-! ### The sessions -/

/-- The shell's end could not be waited for. -/
def shellWait (err : IoError) : AnyhowError := (AnyhowError.ofIo err).context (str "failed to wait for shell process")

/-- What both kinds of session do once the child runs. -/
def shellSession (display : Str) (ready : Except AnyhowError Unit) (failures : RelayFailures) (start : Relay)
    (onMessage : AnyhowError → Bytes → RelaySession Unit) (fuel : ℕ) : RelaySession Unit :=
  sendResponse json requestId (.shellStarted display) [] >>= fun _ =>
    match ready with
    | .error err => .fail err
    | .ok () =>
      relayLoop requestId true failures fuel start [] >>= fun r =>
        match r.1 with
        | .error err => onMessage err r.2
        | .ok status => sendResponse json requestId (.shellExit (exitCode status)) r.2

/-- `handle_pipe_shell`, with what the spawn gives. -/
def pipeShellSession (shell : Str) (command : Option Str) (args : List Str) (spawned : Except IoError Unit)
    (fuel : ℕ) : RelaySession Unit :=
  match displayCommand shell command args, spawned with
  | .error err, _ => .fail err
  | .ok _, .error err => .fail ((AnyhowError.ofIo err).context (str "failed to spawn shell command: " ++ shell))
  | .ok display, .ok () =>
    shellSession json requestId display (.ok ()) ⟨.ofIo, shellWait⟩ .start
      (fun err => sendResponse json requestId (.error .execFailed err.message)) fuel

/-- `handle_pty_shell`: the terminal is one pipe. The error of a terminal that
cannot be allocated is its number. -/
def ptyShellSession (shell : Str) (command : Option Str) (args : List Str) (allocated : Except ℕ Unit)
    (spawned cloned : Except IoError Unit) (fuel : ℕ) : RelaySession Unit :=
  match displayCommand shell command args, allocated, spawned with
  | .error err, _, _ => .fail err
  | .ok _, .error errno, _ => .fail (.bail (str "failed to allocate PTY: os error " ++ decimal errno))
  | .ok _, .ok (), .error err =>
    .fail ((AnyhowError.ofIo err).context (str "failed to spawn PTY shell command: " ++ shell))
  | .ok display, .ok (), .ok () =>
    shellSession json requestId display
      (match cloned with
        | .error err => .error ((AnyhowError.ofIo err).context (str "failed to clone PTY controller for output"))
        | .ok () => .ok ())
      ⟨fun err => .bail (str "PTY stream failed: " ++ err.message), shellWait⟩ ⟨true, false, none⟩ (fun err _ => .fail err) fuel

/-! ### What a session has done where it stops -/

/-- The response, if there is one to send, has gone out, or it does not fit a frame. -/
def Sent (response : Option ControlResponse) (trace : Session.Trace RelayCall.Answer) : Stop AnyhowError Unit → Prop
  | .returned () => asked trace = [] ∧
      ∃ r, response = some r ∧ Fits json r ∧ taken trace = (responseFrame json requestId r).bytes
  | .failed _ => asked trace = [] ∧ taken trace = [] ∧ ∀ r, response = some r → ¬ Fits json r
  | .waiting => asked trace = []

theorem sendResponse_sent (response : ControlResponse) :
    Always (Sent json requestId (some response)) (sendResponse json requestId response []) := by
  by_cases hfits : Fits json response
  · refine (sendResponse_of_fits json requestId hfits).mono fun trace stop h => ?_
    match stop, h with
    | .waiting, ⟨hasked, _⟩ => exact hasked
    | .returned (), ⟨hasked, htaken⟩ => exact ⟨hasked, response, rfl, hfits, htaken⟩
  · rw [sendResponse_of_not_fits json requestId hfits]
    refine always_fail ⟨rfl, rfl, fun r hr => ?_⟩
    rwa [← Option.some.inj hr]

/-- The response a session ends with. -/
inductive ShellEnd (start : Relay) (failures : RelayFailures) (answer : AnyhowError → Option ControlResponse)
    (events : List RelayEvent) : Option ControlResponse → Prop where
  | exit (status : Option Int32) : events.foldl Relay.after start = ⟨false, false, some status⟩ →
      (∀ event ∈ events, ¬ event.Leaves) → ShellEnd start failures answer events (some (.shellExit (exitCode status)))
  | message (err : AnyhowError) : events.getLast? = some (.stdin (some err)) →
      ShellEnd start failures answer events (answer err)
  | failure (event : RelayEvent) (err : AnyhowError) : events.getLast? = some event →
      eventFailure failures event = some err → ShellEnd start failures answer events none

/-- The output has gone out, and the response that ends the session if it can. -/
def ShellRelays (start : Relay) (failures : RelayFailures) (answer : AnyhowError → Option ControlResponse)
    (before : List Frame) (trace : Session.Trace RelayCall.Answer) : Stop AnyhowError Unit → Prop
  | .returned () => ∃ r, ShellEnd start failures answer (events trace) (some r) ∧ Fits json r ∧
      taken trace = framesBytes (before ++ eventsFrames requestId trace ++ [responseFrame json requestId r])
  | .failed _ => (∃ response, ShellEnd start failures answer (events trace) response ∧
      ∀ r, response = some r → ¬ Fits json r) ∧
      taken trace = framesBytes (before ++ eventsFrames requestId trace)
  | .waiting => True

variable {json requestId}

/-- The loop, and what is sent after it. -/
theorem shellLoop_relays {start : Relay} {failures : RelayFailures} {answer : AnyhowError → Option ControlResponse}
    {onMessage : AnyhowError → Bytes → RelaySession Unit}
    (hmessage : ∀ err, Always (Sent json requestId (answer err)) (onMessage err [])) (fuel : ℕ) :
    Always (fun trace stop => Runs true start (events trace) ∧
      ShellRelays json requestId start failures answer [] trace stop)
      (relayLoop requestId true failures fuel start [] >>= fun r =>
        match r.1 with
        | .error err => onMessage err r.2
        | .ok status => sendResponse json requestId (.shellExit (exitCode status)) r.2) := by
  refine always_bind (relayLoop_relays requestId fuel start) (fun _ h => ⟨h.1, trivial⟩) ?_ ?_
  · rintro trace err ⟨hruns, htaken, event, hlast, hfailure⟩
    exact ⟨hruns, ⟨none, .failure event err hlast hfailure, fun _ h => by cases h⟩, htaken⟩
  · rintro first ⟨result, buf⟩ ⟨hruns, htaken, rfl, hresult⟩
    -- what the last response adds to the run of the loop
    have hend : ∀ (response : Option ControlResponse) (rest : Session.Trace RelayCall.Answer) (stop : Stop AnyhowError Unit),
        ShellEnd start failures answer (events first) response → Sent json requestId response rest stop →
          Runs true start (events (first ++ rest)) ∧
            ShellRelays json requestId start failures answer [] (first ++ rest) stop := by
      intro response rest stop hend hsent
      have hasked : asked rest = [] := by
        match stop, hsent with
        | .returned (), h => exact h.1
        | .failed _, h => exact h.1
        | .waiting, h => exact h
      have hevents : events (first ++ rest) = events first := by
        rw [events_append, events_of_asked hasked, List.append_nil]
      refine ⟨by rwa [hevents], ?_⟩
      match stop, hsent with
      | .returned (), ⟨_, r, hr, hfits, hrest⟩ =>
        refine ⟨r, by rwa [hevents, ← hr], hfits, ?_⟩
        rw [eventsFrames, hevents, taken_append, htaken, hrest, List.nil_append, framesBytes_append]
        simp [framesBytes_cons]
      | .failed _, ⟨_, hrest, hfits⟩ =>
        refine ⟨⟨response, by rwa [hevents], hfits⟩, ?_⟩
        rw [eventsFrames, hevents, taken_append, htaken, hrest, List.nil_append, List.append_nil]
      | .waiting, _ => trivial
    cases result with
    | error err => exact (hmessage err).mono fun rest stop => hend _ rest stop (.message err hresult)
    | ok status =>
      exact (sendResponse_sent json requestId _).mono fun rest stop => hend _ rest stop (.exit status hresult.1 hresult.2)

variable (json requestId)

/-- What a whole session has done. -/
def SessionRelays (display : Str) (ready : Except AnyhowError Unit) (start : Relay) (failures : RelayFailures)
    (answer : AnyhowError → Option ControlResponse) (trace : Session.Trace RelayCall.Answer)
    (stop : Stop AnyhowError Unit) : Prop :=
  (Fits json (.shellStarted display) ∧ ready = .ok () ∧ Runs true start (events trace) ∧
    ShellRelays json requestId start failures answer [responseFrame json requestId (.shellStarted display)] trace stop) ∨
  (Fits json (.shellStarted display) ∧ (∃ err, ready = .error err) ∧ events trace = [] ∧
    match stop with
    | .returned () => False
    | .failed _ => taken trace = framesBytes [responseFrame json requestId (.shellStarted display)]
    | .waiting => True) ∨
  (¬ Fits json (.shellStarted display) ∧ (∃ err, stop = .failed err) ∧ trace = [])

theorem shellSession_relays (display : Str) (ready : Except AnyhowError Unit) (start : Relay)
    {failures : RelayFailures} {answer : AnyhowError → Option ControlResponse}
    {onMessage : AnyhowError → Bytes → RelaySession Unit}
    (hmessage : ∀ err, Always (Sent json requestId (answer err)) (onMessage err [])) (fuel : ℕ) :
    Always (SessionRelays json requestId display ready start failures answer)
      (shellSession json requestId display ready failures start onMessage fuel) := by
  by_cases hfits : Fits json (.shellStarted display)
  · refine always_bind (sendResponse_of_fits json requestId hfits) ?_ (fun _ _ h => h.elim) ?_
    · rintro trace ⟨hasked, _⟩
      cases ready with
      | ok u => exact Or.inl ⟨hfits, rfl, by rw [events_of_asked hasked]; trivial, trivial⟩
      | error err => exact Or.inr (Or.inl ⟨hfits, ⟨err, rfl⟩, events_of_asked hasked, trivial⟩)
    · rintro first ⟨⟩ ⟨hasked, htaken⟩
      cases ready with
      | error err =>
        refine always_fail (Or.inr (Or.inl ⟨hfits, ⟨err, rfl⟩, ?_, ?_⟩))
        · rw [List.append_nil, events_of_asked hasked]
        · show taken (first ++ []) = _
          rw [List.append_nil, htaken, framesBytes_cons, framesBytes_nil, List.append_nil]
      | ok u =>
        refine (shellLoop_relays hmessage fuel).mono fun rest stop h => Or.inl ⟨hfits, rfl, ?_⟩
        have hevents : events (first ++ rest) = events rest := by
          rw [events_append, events_of_asked hasked, List.nil_append]
        have hbytes : ∀ fs, (responseFrame json requestId (.shellStarted display)).bytes ++ framesBytes fs =
            framesBytes (responseFrame json requestId (.shellStarted display) :: fs) :=
          fun fs => (framesBytes_cons _ fs).symm
        refine ⟨by rw [hevents]; exact h.1, ?_⟩
        match stop, h.2 with
        | .returned (), ⟨r, hend, hr, hrest⟩ =>
          refine ⟨r, by rwa [hevents], hr, ?_⟩
          rw [taken_append, htaken, hrest, hbytes, eventsFrames, eventsFrames, hevents]
          rfl
        | .failed _, ⟨hend, hrest⟩ =>
          refine ⟨by rwa [hevents], ?_⟩
          rw [taken_append, htaken, hrest, hbytes, eventsFrames, eventsFrames, hevents]
          rfl
        | .waiting, _ => trivial
  · unfold shellSession
    rw [sendResponse_of_not_fits json requestId hfits]
    exact always_fail (Or.inr (Or.inr ⟨hfits, ⟨_, rfl⟩, rfl⟩))

/-! ### The two tasks of a pipe shell -/

/-- The answer of a pipe shell to a message of the stdin task. -/
def stdinAnswer (err : AnyhowError) : Option ControlResponse := some (.error .execFailed err.message)

/-- What a shell with pipes says of its failures. -/
def pipeFailures : RelayFailures := ⟨.ofIo, shellWait⟩

/-- A run of both tasks, in any interleaving: the loop gets a message only from a
task that has ended with it. -/
structure PipeShellRun (shell : Str) (command : Option Str) (args : List Str) where
  trace : Session.Trace RelayCall.Answer
  stop : Stop AnyhowError Unit
  exec : ∃ fuel, Exec (pipeShellSession json requestId shell command args (.ok ()) fuel) trace stop
  input : Prog.Trace StdinCall.Answer
  inputStop : Stop Empty (Option AnyhowError)
  inputExec : ∃ fuel, Exec (stdinTask requestId fuel) input inputStop
  messages : ∀ message, .stdin message ∈ events trace → inputStop = .returned message

/-- The client sends stdin frames of the session, and goes away at a frame's end. -/
def ValidInput (input : Prog.Trace StdinCall.Answer) : Prop :=
  ∀ reply, (⟨.read, reply⟩ : (c : StdinCall) × c.Answer) ∈ input →
    reply = .error (.io .unexpectedEof) ∨ ∃ eof payload, reply = .ok (⟨requestId, .stdin, eof⟩, payload)

/-- A write to the child's stdin has failed, or its flush. -/
def WriteFailed (input : Prog.Trace StdinCall.Answer) (err : IoError) : Prop :=
  (∃ data, (⟨.write data, .error err⟩ : (c : StdinCall) × c.Answer) ∈ input) ∨
    (⟨.flush, .error err⟩ : (c : StdinCall) × c.Answer) ∈ input

/-- The session reports what the child did: `ShellStarted`, the child's whole
output with one eof frame a channel, `ShellExit` with its status. -/
def ShellReports (child : Child) (wire : Bytes) : Prop :=
  ∃ (display : Str) (frames : List Frame),
    let first := responseFrame json requestId (.shellStarted display)
    let last := responseFrame json requestId (.shellExit (exitCode child.status))
    first.Valid ∧ CarriesOutput requestId child frames ∧ last.Valid ∧ wire = framesBytes (first :: frames ++ [last])

variable {json requestId}

theorem feed_message {payload : Bytes} {err : AnyhowError} {input : Prog.Trace StdinCall.Answer}
    (h : Exec (feed payload) input (.returned (some err))) : ∃ e, WriteFailed input e ∧ err = stdinFailure e := by
  unfold feed at h
  split at h
  · obtain ⟨_, hnone⟩ := exec_pure_returned h
    cases hnone
  obtain ⟨written, rest, rfl, hwrite⟩ := exec_call_returned h
  cases written with
  | error e =>
    obtain ⟨_, herr⟩ := exec_pure_returned hwrite
    exact ⟨e, Or.inl ⟨payload, List.mem_cons_self⟩, Option.some.inj herr⟩
  | ok u =>
    obtain ⟨flushed, last, rfl, hflush⟩ := exec_call_returned hwrite
    cases flushed with
    | error e =>
      obtain ⟨_, herr⟩ := exec_pure_returned hflush
      exact ⟨e, Or.inr (List.mem_cons_of_mem _ List.mem_cons_self), Option.some.inj herr⟩
    | ok u =>
      obtain ⟨_, hnone⟩ := exec_pure_returned hflush
      cases hnone

theorem WriteFailed.mono {a b : Prog.Trace StdinCall.Answer} {e : IoError} (h : WriteFailed a e) (hsub : a ⊆ b) :
    WriteFailed b e := by
  rcases h with ⟨data, h⟩ | h
  · exact Or.inl ⟨data, hsub h⟩
  · exact Or.inr (hsub h)

/-- With valid input the task has nothing to report but a write that failed. -/
theorem stdinTask_message {err : AnyhowError} : ∀ {fuel : ℕ} {input : Prog.Trace StdinCall.Answer},
    Exec (stdinTask requestId fuel) input (.returned (some err)) → ValidInput requestId input →
      ∃ e, WriteFailed input e ∧ err = stdinFailure e
  | 0, input, h, _ => by
    obtain ⟨reply, _⟩ := exec_call_returned h
    exact reply.elim
  | fuel + 1, input, h, hvalid => by
    obtain ⟨reply, rest, rfl, hread⟩ := exec_call_returned h
    rcases hvalid reply List.mem_cons_self with rfl | ⟨eof, payload, rfl⟩
    · obtain ⟨_, _, _, hshutdown⟩ := exec_call_returned hread
      obtain ⟨_, hnone⟩ := exec_pure_returned hshutdown
      cases hnone
    · simp only [ne_eq, not_true_eq_false, ↓reduceIte] at hread
      obtain ⟨message, first, last, rfl, hfeed, hnext⟩ := exec_bind_returned hread
      cases message with
      | some e =>
        obtain ⟨_, herr⟩ := exec_pure_returned hnext
        obtain ⟨cause, hfailed, hcause⟩ := feed_message hfeed
        refine ⟨cause, hfailed.mono ?_, (Option.some.inj herr).trans hcause⟩
        exact fun x hx => List.mem_cons_of_mem _ (List.mem_append_left _ hx)
      | none =>
        cases eof with
        | true =>
          obtain ⟨_, _, _, hshutdown⟩ := exec_call_returned hnext
          obtain ⟨_, hnone⟩ := exec_pure_returned hshutdown
          cases hnone
        | false =>
          have hsub : last ⊆ ⟨.read, .ok (⟨requestId, .stdin, false⟩, payload)⟩ :: (first ++ last) :=
            fun x hx => List.mem_cons_of_mem _ (List.mem_append_right _ hx)
          obtain ⟨cause, hfailed, hcause⟩ := stdinTask_message hnext fun reply hreply => hvalid reply (hsub hreply)
          exact ⟨cause, hfailed.mono hsub, hcause⟩

theorem pipeShell_relays {shell : Str} {command : Option Str} {args : List Str} {fuel : ℕ}
    {trace : Session.Trace RelayCall.Answer}
    (h : Exec (pipeShellSession json requestId shell command args (.ok ()) fuel) trace (.returned ())) :
    ∃ display r, displayCommand shell command args = .ok display ∧ Fits json (.shellStarted display) ∧
      Runs true .start (events trace) ∧ ShellEnd .start pipeFailures stdinAnswer (events trace) (some r) ∧
      Fits json r ∧ taken trace = framesBytes (responseFrame json requestId (.shellStarted display) ::
        eventsFrames requestId trace ++ [responseFrame json requestId r]) := by
  unfold pipeShellSession at h
  cases hdisplay : displayCommand shell command args with
  | error err =>
    rw [hdisplay] at h
    cases h
  | ok display =>
    rw [hdisplay] at h
    have hmessage : ∀ err, Always (Sent json requestId (stdinAnswer err))
        (sendResponse json requestId (.error .execFailed err.message) []) :=
      fun err => sendResponse_sent json requestId (.error .execFailed err.message)
    have hall := shellSession_relays json requestId display (.ok ()) .start hmessage fuel trace _ h
    rcases hall with ⟨hfits, _, hruns, r, hend, hr, htaken⟩ | ⟨_, ⟨err, herr⟩, _⟩ | ⟨_, ⟨err, herr⟩, _⟩
    · exact ⟨display, r, rfl, hfits, hruns, hend, hr, htaken⟩
    · cases herr
    · cases herr

/-- When a session that returns reports the child. -/
theorem shellReports_iff {shell : Str} {command : Option Str} {args : List Str} {child : Child}
    (hjson : ∀ code message status, json (.error code message) ≠ json (.shellExit status))
    (run : PipeShellRun json requestId shell command args) (hreturned : run.stop = .returned ())
    (hchild : child.Shows (events run.trace)) :
    ShellReports json requestId child (taken run.trace) ↔ ∀ err, .stdin (some err) ∉ events run.trace := by
  obtain ⟨fuel, hexec⟩ := run.exec
  rw [hreturned] at hexec
  obtain ⟨display, r, _, hfits, hruns, hend, hr, htaken⟩ := pipeShell_relays hexec
  constructor
  · rintro ⟨display', frames, hfirst, hcarries, hlast, hwire⟩ err hmem
    cases hend with
    | exit status hended hstays => exact hstays _ hmem trivial
    | message err' hmessage =>
      have hvalid : ∀ f ∈ responseFrame json requestId (.shellStarted display) ::
          eventsFrames requestId run.trace ++ [responseFrame json requestId (.error .execFailed err'.message)], f.Valid := by
        rw [List.forall_mem_append, List.forall_mem_cons, List.forall_mem_singleton]
        exact ⟨⟨(responseFrame_valid json requestId).mpr hfits, hruns.valid requestId⟩,
          (responseFrame_valid json requestId).mpr hr⟩
      have hvalid' : ∀ f ∈ responseFrame json requestId (.shellStarted display') :: frames ++
          [responseFrame json requestId (.shellExit (exitCode child.status))], f.Valid := by
        rw [List.forall_mem_append, List.forall_mem_cons, List.forall_mem_singleton]
        exact ⟨⟨hfirst, hcarries.valid⟩, hlast⟩
      have hframes := framesBytes_inj hvalid hvalid' (htaken.symm.trans hwire)
      have hends := (List.append_inj' hframes rfl).2
      exact hjson _ _ _ (congrArg Frame.payload (List.cons.inj hends).1)
  · intro hnone
    cases hend with
    | exit status hended hstays =>
      obtain ⟨hcarries, rfl⟩ := carriesOutput_of_ended requestId hruns hended hchild
      exact ⟨display, _, (responseFrame_valid json requestId).mpr hfits, hcarries,
        (responseFrame_valid json requestId).mpr hr, htaken⟩
    | message err hlast => exact absurd (List.mem_of_getLast? hlast) (hnone err)

variable (json requestId)

/-- Any order of the child's events, with no message of the stdin task, is a run. -/
theorem pipeShell_exec {shell display : Str} {command : Option Str} {args : List Str} {status : Option Int32}
    (hdisplay : displayCommand shell command args = .ok display) (hfirst : Fits json (.shellStarted display))
    (hlast : Fits json (.shellExit (exitCode status))) {es : List RelayEvent} (hruns : Runs true .start es)
    (hstays : ∀ event ∈ es, ¬ event.Leaves) (hended : es.foldl Relay.after .start = ⟨false, false, some status⟩) :
    ∃ trace, Exec (pipeShellSession json requestId shell command args (.ok ()) (es.length + 1)) trace (.returned ()) ∧
      events trace = es := by
  obtain ⟨started, ⟨⟩, hstarted⟩ := sendResponse_completes json requestId hfirst
  obtain ⟨hquiet, _⟩ := sendResponse_of_fits json requestId hfirst started _ hstarted
  obtain ⟨middle, hmiddle, hevents⟩ := relayLoop_exec requestId pipeFailures es .start (Nat.lt_succ_self es.length)
    hruns hstays hended
  obtain ⟨exited, ⟨⟩, hexited⟩ := sendResponse_completes json requestId hlast
  obtain ⟨hquiet', _⟩ := sendResponse_of_fits json requestId hlast exited _ hexited
  refine ⟨started ++ (middle ++ exited), ?_, ?_⟩
  · unfold pipeShellSession
    rw [hdisplay]
    exact hstarted.bind (hmiddle.bind hexited)
  · rw [events_append, events_append, events_of_asked hquiet, events_of_asked hquiet', hevents, List.append_nil,
      List.nil_append]

variable {json requestId}

/-- A child whose stdin takes every write is reported, however the client's
input, its output and its exit interleave. -/
theorem pipe_shell_reports_of_writes {shell : Str} {command : Option Str} {args : List Str} {child : Child}
    (hjson : ∀ code message status, json (.error code message) ≠ json (.shellExit status))
    (run : PipeShellRun json requestId shell command args) (hinput : ValidInput requestId run.input)
    (hreturned : run.stop = .returned ()) (hchild : child.Shows (events run.trace))
    (hwrites : ∀ e, ¬ WriteFailed run.input e) : ShellReports json requestId child (taken run.trace) := by
  refine (shellReports_iff hjson run hreturned hchild).mpr fun err hmem => ?_
  obtain ⟨fuel, hexec⟩ := run.inputExec
  rw [run.messages _ hmem] at hexec
  obtain ⟨e, hfailed, _⟩ := stdinTask_message hexec hinput
  exact hwrites e hfailed

/-- **A pipe shell reports its command exactly when no failed write is picked.**
For every command, every valid stdin of the client and every interleaving of its
delivery, the child's output, the child closing its stdin and its exit: after
`ShellStarted` the frames are the child's whole output with one eof frame a
channel and then `ShellExit` with its status, if and only if the loop has not
picked the report of a failed write to the child's stdin. -/
theorem pipe_shell_reports_iff
    (hjson : ∀ code message status, json (.error code message) ≠ json (.shellExit status)) {shell : Str}
    {command : Option Str} {args : List Str} (run : PipeShellRun json requestId shell command args)
    (hinput : ValidInput requestId run.input) (hreturned : run.stop = .returned ()) {child : Child}
    (hchild : child.Shows (events run.trace)) :
    ShellReports json requestId child (taken run.trace) ↔
      ∀ e, WriteFailed run.input e → .stdin (some (stdinFailure e)) ∉ events run.trace := by
  rw [shellReports_iff hjson run hreturned hchild]
  constructor
  · exact fun hnone e _ => hnone _
  · intro hnone err hmem
    obtain ⟨fuel, hexec⟩ := run.inputExec
    rw [run.messages _ hmem] at hexec
    obtain ⟨e, hfailed, rfl⟩ := stdinTask_message hexec hinput
    exact hnone e hfailed hmem

end

/-! ### A child that exits with 3 and never reads -/

theorem json_error_ne_shellExit (code : ErrorCode) (message : Str) (status : ℤ) :
    ControlResponse.json (.error code message) ≠ ControlResponse.json (.shellExit status) := by
  intro h
  have herror : (ControlResponse.json (.error code message)).take 13 = str "\x7b\"type\":\"erro" := rfl
  have hexit : (ControlResponse.json (.shellExit status)).take 13 = str "\x7b\"type\":\"shel" := rfl
  rw [h, hexit] at herror
  exact absurd herror (by decide)

/-- The command of the example. -/
def exitThree : Option Str := some (str "exit 3")

/-- It exits with 3. -/
def exitThreeChild : Child := ⟨[], [], some 3⟩

/-- Both outputs end, and then the exit is seen. -/
def exitThreeEvents : List RelayEvent := [.stdout (.ok []), .stderr (.ok []), .exit (.ok (some 3))]

theorem displayCommand_exitThree :
    displayCommand (str "/bin/sh") exitThree [] = .ok (str "/bin/sh -lc 'exit 3'") := by decide +kernel

/-- The write of the client's line finds nobody to read it. -/
def unreadInput : Prog.Trace StdinCall.Answer :=
  [⟨.read, .ok (⟨7, .stdin, true⟩, str "x")⟩, ⟨.write (str "x"), .error IoErrorKind.brokenPipe.toError⟩]

/-- What the task leaves for the loop. -/
def unreadReport : AnyhowError := stdinFailure IoErrorKind.brokenPipe.toError

theorem stdinTask_unread : Exec (stdinTask 7 1) unreadInput (.returned (some unreadReport)) := by
  refine .call (A := StdinCall.Answer) (c := .read) (.ok (⟨7, .stdin, true⟩, str "x")) ?_
  exact .call (A := StdinCall.Answer) (c := .write (str "x")) (.error IoErrorKind.brokenPipe.toError) (.pure _)

theorem validInput_unread : ValidInput 7 unreadInput := by
  intro reply h
  have hreply : reply = .ok (⟨7, .stdin, true⟩, str "x") := by simpa [unreadInput] using h
  exact Or.inr ⟨true, str "x", hreply⟩

/-- The report is the loop's first event, though the child's pipes have ended. -/
theorem pipeShell_unread : ∃ trace,
    Exec (pipeShellSession ControlResponse.json 7 (str "/bin/sh") exitThree [] (.ok ()) 1) trace (.returned ()) ∧
      events trace = [.stdin (some unreadReport)] := by
  have hfirst : Fits ControlResponse.json (.shellStarted (str "/bin/sh -lc 'exit 3'")) := by decide +kernel
  have hlast : Fits ControlResponse.json (.error .execFailed unreadReport.message) := by decide +kernel
  obtain ⟨started, ⟨⟩, hstarted⟩ := sendResponse_completes ControlResponse.json 7 hfirst
  obtain ⟨hquiet, _⟩ := sendResponse_of_fits ControlResponse.json 7 hfirst started _ hstarted
  obtain ⟨failed, ⟨⟩, hfailed⟩ := sendResponse_completes ControlResponse.json 7 hlast
  obtain ⟨hquiet', _⟩ := sendResponse_of_fits ControlResponse.json 7 hlast failed _ hfailed
  let picked : { event : RelayEvent // Relay.start.Enabled true event } := ⟨.stdin (some unreadReport), rfl⟩
  have hloop : Exec (relayLoop 7 true pipeFailures 1 .start []) [⟨.other (.select true .start), picked⟩]
      (.returned (.error unreadReport, [])) :=
    .call (A := SocketCall.Answer RelayCall.Answer) (c := .other (.select true .start)) picked (.pure _)
  refine ⟨started ++ ([⟨.other (.select true .start), picked⟩] ++ failed), ?_, ?_⟩
  · unfold pipeShellSession
    rw [displayCommand_exitThree]
    exact hstarted.bind (hloop.bind hfailed)
  · rw [events_append, events_append, events_of_asked hquiet, events_of_asked hquiet', List.append_nil]
    rfl

/-- The child exits with 3, and the session answers `ExecFailed` instead. -/
theorem pipe_shell_loses_exit :
    ∃ run : PipeShellRun ControlResponse.json 7 (str "/bin/sh") exitThree [],
      ValidInput 7 run.input ∧ run.stop = .returned () ∧ exitThreeChild.Shows (events run.trace) ∧
        ¬ ShellReports ControlResponse.json 7 exitThreeChild (taken run.trace) := by
  obtain ⟨trace, hexec, hevents⟩ := pipeShell_unread
  have hmessages : ∀ message, .stdin message ∈ events trace →
      (.returned (some unreadReport) : Stop Empty (Option AnyhowError)) = .returned message := by
    intro message hmem
    rw [hevents, List.mem_singleton] at hmem
    rw [RelayEvent.stdin.inj hmem]
  let run : PipeShellRun ControlResponse.json 7 (str "/bin/sh") exitThree [] :=
    ⟨trace, .returned (), ⟨1, hexec⟩, unreadInput, _, ⟨1, stdinTask_unread⟩, hmessages⟩
  have hchild : exitThreeChild.Shows (events run.trace) := by
    rw [show events run.trace = _ from hevents]
    exact ⟨.nil _, .nil _, fun _ h => by simp at h⟩
  refine ⟨run, validInput_unread, rfl, hchild, fun h => ?_⟩
  have hnone := (shellReports_iff json_error_ne_shellExit run rfl hchild).mp h unreadReport
  rw [show events run.trace = _ from hevents] at hnone
  exact hnone List.mem_cons_self

/-- The same failed write, reported when the loop is over. -/
theorem pipe_shell_reports_exit :
    ∃ run : PipeShellRun ControlResponse.json 7 (str "/bin/sh") exitThree [],
      WriteFailed run.input IoErrorKind.brokenPipe.toError ∧
        (ShellReports ControlResponse.json 7 exitThreeChild (taken run.trace) ↔
          ∀ e, WriteFailed run.input e → .stdin (some (stdinFailure e)) ∉ events run.trace) := by
  have hnil : ∀ data, (.ok [] : Except IoError Bytes) = .ok data → data.length ≤ defaultStreamChunkSize :=
    fun _ h => by cases h; decide
  have hruns : Runs true .start exitThreeEvents :=
    ⟨rfl, ⟨rfl, hnil⟩, False.elim, rfl, ⟨rfl, hnil⟩, False.elim, rfl, rfl, False.elim, trivial⟩
  have hended : exitThreeEvents.foldl Relay.after .start = ⟨false, false, some (some 3)⟩ := rfl
  obtain ⟨trace, hexec, hevents⟩ := pipeShell_exec ControlResponse.json 7 displayCommand_exitThree (by decide +kernel)
    (by decide +kernel) hruns (by simp [exitThreeEvents, RelayEvent.Leaves]) hended
  let run : PipeShellRun ControlResponse.json 7 (str "/bin/sh") exitThree [] :=
    ⟨trace, .returned (), ⟨_, hexec⟩, unreadInput, _, ⟨1, stdinTask_unread⟩, by rw [hevents]; simp [exitThreeEvents]⟩
  have hchild : exitThreeChild.Shows (events run.trace) := by
    rw [show events run.trace = _ from hevents]
    exact ⟨.ended (.nil _), .ended (.nil _), by simp [exitThreeEvents, exitThreeChild]⟩
  exact ⟨run, Or.inl ⟨str "x", List.mem_cons_of_mem _ List.mem_cons_self⟩,
    pipe_shell_reports_iff json_error_ne_shellExit run validInput_unread rfl hchild⟩

end Daemon

end Rsdb
