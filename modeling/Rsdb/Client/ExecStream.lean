/-
# The client's streamed and unstreamed exec

`run_agent_exec` asks for the whole output of a command in one response and
reports it; `run_agent_exec_stream` reads frames until one ends the exec, and
prints an event for each stretch of output as it comes. The daemon puts U+FFFD
for what is no text in the whole output of an unstreamed command; the client does
it frame by frame for a streamed one.

`execStreamLoop_carries` says what the events are when the frames carry a child's
output. They show the text the unstreamed exec reports exactly when no frame ends
inside a character, or inside a prefix of one that goes wrong
(`exec_texts_agree_iff`).
-/
import Rsdb.Daemon.Request

namespace Rsdb

namespace Client

/-! ### Failures -/

/-- A value in the details of a failure. -/
inductive Detail where
  | null
  | flag (b : Bool)
  | number (n : ℤ)
  | text (s : Str)
  | texts (ss : List Str)
  deriving DecidableEq

/-- What an agent command fails with; the details are the fields of a JSON object. -/
structure AgentCommandFailure where
  code : Str
  message : Str
  target : Option Str
  retryable : Bool
  details : List (Str × Detail)
  exitCode : ℤ
  deriving DecidableEq

/-- Something on this side went wrong. -/
def internalAgentFailure (message : Str) : AgentCommandFailure :=
  ⟨str "internal.error", message, none, false, [], 1⟩

/-- `map_transport_error` of a bare message: none of the errors it looks for is in the chain. -/
def mapTransportMessage (target message : Str) : AgentCommandFailure :=
  ⟨str "internal.error", message, some target, false, [], 1⟩

/-- The code `map_remote_error` gives, and whether a retry may help. -/
def mappedCode (command message : Str) : ErrorCode → Str × Bool
  | .invalidRequest => (str "invalid.request", false)
  | .capabilityMissing => (str "capability.missing", false)
  | .execFailed =>
    if str "timed out" <:+: message then (str "exec.timeout", true) else (str "exec.start_failed", false)
  | .execStartFailed => (str "exec.start_failed", false)
  | .execTimeout => (str "exec.timeout", true)
  | .notFound | .fsNotFound => (str "fs.not_found", false)
  | .fsPermissionDenied => (str "fs.permission_denied", false)
  | .fsPreconditionFailed => (str "fs.precondition_failed", false)
  | .fsNoSpace => (str "fs.no_space", false)
  | .transferInterrupted => (str "transfer.interrupted", true)
  | .transferVerificationFailed => (str "transfer.verification_failed", false)
  | .fileTransferFailed =>
    if str "transfer" <+: command then (str "transfer.failed", false) else (str "daemon.error", false)
  | .internal => (str "daemon.error", false)

/-- What the agent says of an error of the daemon. -/
def mapRemoteError (command target : Str) (code : ErrorCode) (message : Str) (details : List (Str × Detail)) :
    AgentCommandFailure :=
  ⟨(mappedCode command message code).1, message, some target, (mappedCode command message code).2, details, 1⟩

/-- What the agent says of an error that answers an exec. -/
def mapRemoteExecError (target : Str) (code : ErrorCode) (message : Str) (details : List (Str × Detail)) :
    AgentCommandFailure :=
  mapRemoteError (str "exec") target code message details

/-- A field for a text that is there and not empty. -/
def textField (name : String) (value : Option Str) : List (Str × Detail) :=
  match value with
  | some text => if text = [] then [] else [(str name, .text text)]
  | none => []

/-- What a failed command left behind. -/
def execFailureDetails (status : ℤ) (timedOut : Bool) (stdout stderr : Option Str) : List (Str × Detail) :=
  [(str "status", .number status)] ++ (if timedOut then [(str "timed_out", .flag true)] else []) ++
    textField "stdout" stdout ++ textField "stderr" stderr

/-- `exec_nonzero_failure`, and `exec_nonzero_failure_from_completion` without the output. -/
def execNonzeroFailure (target : Str) (status : ℤ) (timedOut : Bool) (stdout stderr : Option Str) :
    AgentCommandFailure :=
  ⟨str "exec.nonzero", str "remote command exited with status " ++ jsonInt status, some target, false,
    execFailureDetails status timedOut stdout stderr, status⟩

/-! ### The command -/

/-- The arguments of `run_agent_exec` and `run_agent_exec_stream`; `elapsedMs` is
the time the clock shows when the daemon has failed. -/
structure ExecArgs where
  target : Str
  responseTarget : Option Str
  program : Str
  args : List Str
  cwd : Option Str
  timeoutSecs : Option ℕ
  check : Bool
  elapsedMs : ℕ

/-- What a failure of the daemon's is reported with. -/
def ExecArgs.details (asked : ExecArgs) : List (Str × Detail) :=
  [(str "command", .text asked.program), (str "args", .texts asked.args),
    (str "cwd", asked.cwd.elim .null .text), (str "timeout_secs", asked.timeoutSecs.elim .null fun n => .number n),
    (str "duration_ms", .number asked.elapsedMs)]

/-- What the agent reports of a command that ran. -/
structure AgentExecData where
  target : Option Str
  status : ℤ
  timedOut : Bool
  stdout : Option Str
  stderr : Option Str
  deriving DecidableEq

/-- No text is reported as none. -/
def intoNonEmptyString (value : Str) : Option Str := if value = [] then none else some value

section

variable (codec : Codec) (asked : ExecArgs)

/-- `run_agent_exec`, with the response it gets. -/
def runAgentExec : ControlResponse → Except AgentCommandFailure AgentExecData
  | .execResult status stdout stderr timedOut =>
    let data := ⟨asked.responseTarget, status, timedOut, intoNonEmptyString stdout, intoNonEmptyString stderr⟩
    if asked.check = true ∧ status ≠ 0 then
      .error (execNonzeroFailure asked.target status timedOut data.stdout data.stderr)
    else .ok data
  | .error code message => .error (mapRemoteExecError asked.target code message asked.details)
  | other => .error (internalAgentFailure (str "unexpected response from daemon: " ++ codec.debug other))

/-! ### The events -/

/-- What the agent prints on the way. -/
inductive AgentEvent where
  | stdout (target : Option Str) (chunk : Str)
  | stderr (target : Option Str) (chunk : Str)
  | completed (target : Option Str) (status : ℤ) (timedOut : Bool)
  | failed (error : AgentCommandFailure)
  deriving DecidableEq

/-- The event of some output, if there is any. -/
def shownOutput (event : Option Str → Str → AgentEvent) (text : Str) : List AgentEvent :=
  if text = [] then [] else [event asked.responseTarget text]

/-- The event of a frame's payload. -/
def chunkEvents (channel : StreamChannel) (payload : Bytes) : List AgentEvent :=
  if payload = [] then []
  else
    match channel with
    | .stdout => [.stdout asked.responseTarget (utf8Lossy payload)]
    | .stderr => [.stderr asked.responseTarget (utf8Lossy payload)]
    | _ => []

/-- The last event, and the code that is returned. -/
def failedWith (failure : AgentCommandFailure) : List AgentEvent × ℤ := ([.failed failure], 1)

/-- What a response makes of the exec. -/
def responseEvents : ControlResponse → List AgentEvent × ℤ
  | .execResult status stdout stderr timedOut =>
    let shown := shownOutput asked .stdout stdout ++ shownOutput asked .stderr stderr
    if asked.check = true ∧ status ≠ 0 then
      (shown ++ [.failed (execNonzeroFailure asked.target status timedOut none none)], status)
    else (shown ++ [.completed asked.responseTarget status timedOut], 0)
  | .error code message => failedWith (mapRemoteExecError asked.target code message asked.details)
  | other => failedWith (internalAgentFailure (str "unexpected response from daemon: " ++ codec.debug other))

/-- The loop of `run_agent_exec_stream` on the bytes the daemon sends before it
closes the connection, with its payload buffer. `fuel` counts these bytes: with
none left, the next read fails. -/
def execStreamLoop : ℕ → Bytes → Bytes → List AgentEvent × ℤ
  | 0, _, _ => failedWith (mapTransportMessage asked.target (ProtocolError.io .unexpectedEof).display)
  | fuel + 1, input, payload =>
    match readFrameInto input payload with
    | (.error err, _) => failedWith (mapTransportMessage asked.target err.display)
    | (.ok header, rest, payload) =>
      match header.kind with
      | .stream =>
        match decodeStreamFrameHeader header with
        | .error err => failedWith (internalAgentFailure (str "invalid stream frame: " ++ err.display))
        | .ok chunk =>
          if chunk.requestId ≠ clientRequestId then
            failedWith (internalAgentFailure (str "request id mismatch: expected " ++ decimal clientRequestId.toNat ++
              str ", got " ++ decimal chunk.requestId.toNat))
          else
            let (events, code) := execStreamLoop fuel rest payload
            (chunkEvents asked chunk.channel payload ++ events, code)
      | .response =>
        match decodeJson codec.decodeResponse ⟨header, payload⟩ .response with
        | .error err => failedWith (internalAgentFailure (str "invalid response frame: " ++ err.display))
        | .ok response => responseEvents codec asked response
      | other => failedWith (internalAgentFailure (str "unexpected frame kind during exec stream: " ++ other.debug))

/-- `run_agent_exec_stream`, once its request is sent. -/
def runAgentExecStream (input : Bytes) : List AgentEvent × ℤ := execStreamLoop codec asked input.length input []

/-! ### The texts that are shown -/

/-- The text an event adds to a channel. -/
def eventText (channel : StreamChannel) : AgentEvent → Str
  | .stdout _ chunk => if channel = .stdout then chunk else []
  | .stderr _ chunk => if channel = .stderr then chunk else []
  | _ => []

/-- The chunks of a channel, one after the other. -/
def streamedText (channel : StreamChannel) (events : List AgentEvent) : Str := events.flatMap (eventText channel)

/-- The text of a field in the details. -/
def AgentCommandFailure.text (failure : AgentCommandFailure) (field : Str) : Str :=
  match failure.details.lookup field with
  | some (.text s) => s
  | _ => []

/-- What an unstreamed exec reports for a channel. -/
def reportedText (channel : StreamChannel) (report : Except AgentCommandFailure AgentExecData) : Str :=
  match channel, report with
  | .stdout, .ok data => data.stdout.getD []
  | .stderr, .ok data => data.stderr.getD []
  | .stdout, .error failure => failure.text (str "stdout")
  | .stderr, .error failure => failure.text (str "stderr")
  | _, _ => []

/-- The two channels of a command's output. -/
def IsOutput (channel : StreamChannel) : Prop := channel = .stdout ∨ channel = .stderr

/-- What a command has put out on a channel. -/
def outputOn (child : Daemon.Child) : StreamChannel → Bytes
  | .stdout => child.stdout
  | .stderr => child.stderr
  | _ => []

/-- The payloads of the frames on a channel. -/
def payloadsOn (channel : StreamChannel) (frames : List Frame) : List Bytes :=
  (frames.filter fun f => f.channel? = some channel).map Frame.payload

theorem lookup_textField (name field : String) (value : Option Str) (rest : List (Str × Detail)) :
    (textField name value ++ rest).lookup (str field) =
      if str field = str name ∧ value.getD [] ≠ [] then some (.text (value.getD [])) else rest.lookup (str field) := by
  unfold textField
  cases value with
  | none => simp
  | some text =>
    by_cases htext : text = []
    · simp [htext]
    · by_cases hname : str field = str name
      · simp [htext, hname]
      · simp [htext, hname, List.lookup_cons, beq_false_of_ne hname]

/-- The details show the output, as far as there is any. -/
theorem text_execNonzeroFailure (target : Str) (status : ℤ) (timedOut : Bool) (stdout stderr : Option Str) :
    (execNonzeroFailure target status timedOut stdout stderr).text (str "stdout") = stdout.getD [] ∧
      (execNonzeroFailure target status timedOut stdout stderr).text (str "stderr") = stderr.getD [] := by
  have hdetails : ∀ field, str field ≠ str "status" → str field ≠ str "timed_out" →
      (execNonzeroFailure target status timedOut stdout stderr).details.lookup (str field) =
        (textField "stdout" stdout ++ (textField "stderr" stderr ++ [])).lookup (str field) := by
    intro field hstatus htimed
    have hfields : (execNonzeroFailure target status timedOut stdout stderr).details =
        (str "status", .number status) :: ((if timedOut then [(str "timed_out", .flag true)] else []) ++
          (textField "stdout" stdout ++ (textField "stderr" stderr ++ []))) := by
      simp [execNonzeroFailure, execFailureDetails]
    have hskip : ∀ (name : Str) (value : Detail) (rest : List (Str × Detail)), str field ≠ name →
        ((name, value) :: rest).lookup (str field) = rest.lookup (str field) := fun name value rest hne => by
      rw [List.lookup_cons, beq_false_of_ne hne]
    rw [hfields, hskip _ _ _ hstatus]
    cases timedOut with
    | false => rw [if_neg Bool.false_ne_true, List.nil_append]
    | true => rw [if_pos rfl, List.singleton_append, hskip _ _ _ htimed]
  have hname : str "stderr" ≠ str "stdout" := by decide
  constructor
  · rw [AgentCommandFailure.text, hdetails "stdout" (by decide) (by decide), lookup_textField, lookup_textField]
    by_cases h : stdout.getD [] = []
    · simp [h, hname.symm]
    · simp [h]
  · rw [AgentCommandFailure.text, hdetails "stderr" (by decide) (by decide), lookup_textField, lookup_textField]
    by_cases h : stderr.getD [] = []
    · simp [h, hname]
    · simp [h, hname]

theorem getD_intoNonEmptyString (value : Str) : (intoNonEmptyString value).getD [] = value := by
  unfold intoNonEmptyString
  split
  · rename_i hnil
    rw [hnil]
    rfl
  · rfl

/-- An unstreamed exec reports the whole text, also as a failure. -/
theorem reportedText_result (status : ℤ) (stdout stderr : Str) (timedOut : Bool) :
    reportedText .stdout (runAgentExec codec asked (.execResult status stdout stderr timedOut)) = stdout ∧
      reportedText .stderr (runAgentExec codec asked (.execResult status stdout stderr timedOut)) = stderr := by
  unfold runAgentExec
  simp only
  split
  · obtain ⟨hstdout, hstderr⟩ := text_execNonzeroFailure asked.target status timedOut (intoNonEmptyString stdout)
      (intoNonEmptyString stderr)
    exact ⟨hstdout.trans (getD_intoNonEmptyString stdout), hstderr.trans (getD_intoNonEmptyString stderr)⟩
  · exact ⟨getD_intoNonEmptyString stdout, getD_intoNonEmptyString stderr⟩

/-! ### The loop on frames -/

/-- The events of a frame of output. -/
def frameEvents (f : Frame) : List AgentEvent :=
  match f.channel? with
  | some channel => chunkEvents asked channel f.payload
  | none => []

variable {codec asked}

/-- A frame of output is shown, and the loop goes on behind it. -/
theorem execStreamLoop_frame {channel : StreamChannel} {eof : Bool} {payload : Bytes}
    (hvalid : (mkFrame .stream (streamFlags channel eof) clientRequestId payload).Valid) (fuel : ℕ)
    (rest buf : Bytes) :
    execStreamLoop codec asked (fuel + 1)
        ((mkFrame .stream (streamFlags channel eof) clientRequestId payload).bytes ++ rest) buf =
      (chunkEvents asked channel payload ++ (execStreamLoop codec asked fuel rest payload).1,
        (execStreamLoop codec asked fuel rest payload).2) := by
  have hread := readFrameInto_bytes hvalid rest buf
  have hdecode := decodeStreamFrameHeader_mkFrame clientRequestId channel eof payload
  have hkind : (mkFrame .stream (streamFlags channel eof) clientRequestId payload).header.kind = .stream := rfl
  simp only [execStreamLoop, hread, hkind, hdecode, ne_eq, not_true_eq_false, ↓reduceIte]
  rfl

/-- A response ends the loop. -/
theorem execStreamLoop_response {response : ControlResponse} (hfits : Daemon.Fits codec.response response)
    (hdecode : codec.decodeResponse (codec.response response) = .ok response) (fuel : ℕ) (rest buf : Bytes) :
    execStreamLoop codec asked (fuel + 1)
        ((Daemon.responseFrame codec.response clientRequestId response).bytes ++ rest) buf =
      responseEvents codec asked response := by
  have hvalid := (Daemon.responseFrame_valid codec.response clientRequestId).mpr hfits
  have hread := readFrameInto_bytes hvalid rest buf
  have hjson := decodeJson_messageFrame hdecode .response clientRequestId
  have hkind : (Daemon.responseFrame codec.response clientRequestId response).header.kind = .response := rfl
  simp only [execStreamLoop, hread, hkind]
  show (match decodeJson codec.decodeResponse (messageFrame .response clientRequestId (codec.response response))
    .response with | .error err => _ | .ok response => _) = _
  rw [hjson]

/-- A frame of output, from the daemon that serves the request. -/
def IsOutputFrame (f : Frame) : Prop :=
  ∃ channel eof, f = mkFrame .stream (streamFlags channel eof) clientRequestId f.payload

/-- All frames of output are shown, one after the other. -/
theorem execStreamLoop_frames : ∀ {frames : List Frame}, (∀ f ∈ frames, f.Valid) → (∀ f ∈ frames, IsOutputFrame f) →
    ∀ (fuel : ℕ) (rest buf : Bytes), ∃ buf',
      execStreamLoop codec asked (frames.length + fuel) (framesBytes frames ++ rest) buf =
        (frames.flatMap (frameEvents asked) ++ (execStreamLoop codec asked fuel rest buf').1,
          (execStreamLoop codec asked fuel rest buf').2)
  | [], _, _, fuel, rest, buf => ⟨buf, by rw [List.length_nil, Nat.zero_add]; rfl⟩
  | f :: frames, hvalid, houtput, fuel, rest, buf => by
    obtain ⟨hf, hrest⟩ := List.forall_mem_cons.mp hvalid
    obtain ⟨⟨channel, eof, hframe⟩, houtputs⟩ := List.forall_mem_cons.mp houtput
    obtain ⟨buf', ih⟩ := execStreamLoop_frames hrest houtputs fuel rest f.payload
    have hevents : frameEvents asked f = chunkEvents asked channel f.payload := by
      rw [frameEvents, hframe, Frame.channel?_mkFrame]
    have hstep := @execStreamLoop_frame codec asked channel eof f.payload (hframe ▸ hf) (frames.length + fuel)
      (framesBytes frames ++ rest) buf
    rw [← hframe, ih, ← List.append_assoc, ← List.append_assoc] at hstep
    refine ⟨buf', ?_⟩
    rw [List.length_cons, Nat.add_right_comm, framesBytes_cons, hstep, List.flatMap_cons, hevents]

/-! ### The texts agree -/

theorem length_le_framesBytes : ∀ frames : List Frame, frames.length ≤ (framesBytes frames).length
  | [] => Nat.zero_le _
  | f :: frames => by
    have ih := length_le_framesBytes frames
    have hpos : headerLen ≤ f.bytes.length := by rw [Frame.bytes_length]; omega
    rw [framesBytes_cons, List.length_append, List.length_cons]
    unfold headerLen at hpos
    omega

theorem streamedText_append (channel : StreamChannel) (a b : List AgentEvent) :
    streamedText channel (a ++ b) = streamedText channel a ++ streamedText channel b := List.flatMap_append

/-- A frame shows its text on its own channel, and nothing on another. -/
theorem streamedText_frameEvents {channel : StreamChannel} (h : IsOutput channel) (f : Frame) :
    streamedText channel (frameEvents asked f) = if f.channel? = some channel then utf8Lossy f.payload else [] := by
  unfold frameEvents
  cases hchannel : f.channel? with
  | none => rfl
  | some c =>
    simp only [chunkEvents, Option.some.injEq]
    by_cases hnil : f.payload = []
    · rw [if_pos hnil, hnil]
      split <;> rfl
    · rw [if_neg hnil]
      rcases h with rfl | rfl <;> cases c <;> simp [streamedText, eventText]

theorem streamedText_frames {channel : StreamChannel} (h : IsOutput channel) : ∀ frames : List Frame,
    streamedText channel (frames.flatMap (frameEvents asked)) = (payloadsOn channel frames).flatMap utf8Lossy
  | [] => rfl
  | f :: frames => by
    have ih := streamedText_frames h frames
    rw [List.flatMap_cons, streamedText_append, streamedText_frameEvents h, ih, payloadsOn, payloadsOn,
      List.filter_cons]
    by_cases hchannel : f.channel? = some channel
    · simp [hchannel]
    · simp [hchannel]

/-- The result of a streamed exec shows no more output. -/
theorem streamedText_resultResponse (channel : StreamChannel) (status : Option Int32) :
    streamedText channel (responseEvents codec asked (Daemon.resultResponse status)).1 = [] := by
  show streamedText channel
    (if asked.check = true ∧ Daemon.exitCode status ≠ 0 then _ else _ : List AgentEvent × ℤ).1 = []
  split <;> rfl

variable {child : Daemon.Child} {frames : List Frame}

theorem isOutputFrame_of_carries (h : Daemon.CarriesOutput clientRequestId child frames) :
    ∀ f ∈ frames, IsOutputFrame f := by
  have hcarries : ∀ channel data, Daemon.Carries clientRequestId frames channel data →
      ∀ f ∈ frames, f.channel? = some channel → IsOutputFrame f := by
    rintro channel data ⟨chunks, -, hframes⟩ f hf hchannel
    have hmem : f ∈ frames.filter fun f => f.channel? = some channel :=
      List.mem_filter.mpr ⟨hf, by simpa using hchannel⟩
    rw [hframes, List.mem_append, List.mem_map, List.mem_singleton] at hmem
    rcases hmem with ⟨chunk, -, rfl⟩ | rfl
    · exact ⟨channel, false, rfl⟩
    · exact ⟨channel, true, rfl⟩
  intro f hf
  rcases h.channels f hf with hchannel | hchannel
  · exact hcarries _ _ h.stdout f hf hchannel
  · exact hcarries _ _ h.stderr f hf hchannel

theorem payloadsOn_of_carries {channel : StreamChannel} {data : Bytes}
    (h : Daemon.Carries clientRequestId frames channel data) : (payloadsOn channel frames).flatten = data := by
  obtain ⟨chunks, rfl, hframes⟩ := h
  have hpayload : Frame.payload ∘ mkFrame .stream (streamFlags channel false) clientRequestId = id := rfl
  rw [payloadsOn, hframes, List.map_append, List.map_map, hpayload, List.map_id, List.flatten_append]
  show chunks.flatten ++ [] = _
  rw [List.append_nil]

/-- What a streamed exec shows of a child's output. -/
theorem streamedText_of_carries {channel : StreamChannel} (hchannel : IsOutput channel)
    (h : Daemon.CarriesOutput clientRequestId child frames)
    (hfits : Daemon.Fits codec.response (Daemon.resultResponse child.status))
    (hdecode : codec.decodeResponse (codec.response (Daemon.resultResponse child.status)) =
      .ok (Daemon.resultResponse child.status)) :
    streamedText channel (runAgentExecStream codec asked (framesBytes (frames ++
        [Daemon.responseFrame codec.response clientRequestId (Daemon.resultResponse child.status)]))).1 =
      (payloadsOn channel frames).flatMap utf8Lossy := by
  set last := Daemon.responseFrame codec.response clientRequestId (Daemon.resultResponse child.status) with hlast
  have hwire : framesBytes (frames ++ [last]) = framesBytes frames ++ (last.bytes ++ []) := by
    rw [framesBytes_append, framesBytes_cons, framesBytes_nil]
  have hlen := length_le_framesBytes frames
  have hpos : headerLen ≤ last.bytes.length := by rw [Frame.bytes_length]; omega
  obtain ⟨fuel, hfuel⟩ : ∃ fuel, (framesBytes (frames ++ [last])).length = frames.length + (fuel + 1) := by
    refine ⟨(framesBytes (frames ++ [last])).length - frames.length - 1, ?_⟩
    rw [hwire, List.length_append, List.append_nil]
    unfold headerLen at hpos
    omega
  obtain ⟨buf, hloop⟩ := @execStreamLoop_frames codec asked frames h.valid (isOutputFrame_of_carries h) (fuel + 1)
    (last.bytes ++ []) []
  rw [runAgentExecStream, hfuel, hwire, hloop, hlast, execStreamLoop_response hfits hdecode]
  rw [streamedText_append, streamedText_frames hchannel, streamedText_resultResponse, List.append_nil]

theorem reportedText_of_finished (state : Daemon.ServerState) (hcommand : isBlank asked.program = false)
    {channel : StreamChannel} (hchannel : IsOutput channel) (child : Daemon.Child) :
    reportedText channel (runAgentExec codec asked (Daemon.execResponse (Daemon.executeCommand state asked.program
        asked.timeoutSecs (.finished child.status child.stdout child.stderr)))) =
      utf8Lossy (outputOn child channel) := by
  have hresponse : Daemon.executeCommand state asked.program asked.timeoutSecs
      (.finished child.status child.stdout child.stderr) =
        .ok (.execResult (Daemon.exitCode child.status) (utf8Lossy child.stdout) (utf8Lossy child.stderr) false) := by
    rw [Daemon.executeCommand, if_neg (by rw [hcommand]; exact Bool.false_ne_true)]
  obtain ⟨hstdout, hstderr⟩ := reportedText_result codec asked (Daemon.exitCode child.status) (utf8Lossy child.stdout)
    (utf8Lossy child.stderr) false
  rw [hresponse]
  rcases hchannel with rfl | rfl
  · exact hstdout
  · exact hstderr

variable (codec asked)

/-- **When a streamed exec shows the text of an unstreamed one.** For every output
of a command, on each of its channels, and every way of cutting it into frames:
the chunks shown are together the text the unstreamed exec reports if and only if
no frame ends inside a character, or inside a prefix of one that goes wrong. -/
theorem exec_texts_agree_iff (state : Daemon.ServerState) (hcommand : isBlank asked.program = false)
    (child : Daemon.Child) (frames : List Frame) (h : Daemon.CarriesOutput clientRequestId child frames)
    (hfits : Daemon.Fits codec.response (Daemon.resultResponse child.status))
    (hdecode : codec.decodeResponse (codec.response (Daemon.resultResponse child.status)) =
      .ok (Daemon.resultResponse child.status)) (channel : StreamChannel) (hchannel : IsOutput channel) :
    streamedText channel (runAgentExecStream codec asked (framesBytes (frames ++
          [Daemon.responseFrame codec.response clientRequestId (Daemon.resultResponse child.status)]))).1 =
        reportedText channel (runAgentExec codec asked (Daemon.execResponse (Daemon.executeCommand state asked.program
          asked.timeoutSecs (.finished child.status child.stdout child.stderr)))) ↔
      CutAtBoundaries (payloadsOn channel frames) := by
  have hwhole : (payloadsOn channel frames).flatten = outputOn child channel := by
    rcases hchannel with rfl | rfl
    · exact payloadsOn_of_carries h.stdout
    · exact payloadsOn_of_carries h.stderr
  rw [streamedText_of_carries hchannel h hfits hdecode, reportedText_of_finished state hcommand hchannel, ← hwhole]
  exact flatMap_utf8Lossy_iff (payloadsOn channel frames)

end

/-! ### A character in one frame, and in two -/

/-- A command for one device, with no arguments and no time limit. -/
def asksHost : ExecArgs := ⟨str "host:1", none, str "date", [], none, none, false, 0⟩

/-- The documented texts, and a parser that knows the exit with status 0. -/
def exitCodec : Codec := .documented [] [Daemon.resultResponse (some 0)]

theorem exitCodec_decodes : exitCodec.decodeResponse (exitCodec.response (Daemon.resultResponse (some 0))) =
    .ok (Daemon.resultResponse (some 0)) := by decide +kernel

theorem exitCodec_fits : Daemon.Fits exitCodec.response (Daemon.resultResponse (some 0)) := by decide +kernel

/-- A child that writes `\u00E9`. -/
def accented : Daemon.Child := ⟨[0xC3, 0xA9], [], some 0⟩

/-- Its output with stdout in these frames. -/
def accentedFrames (chunks : List Bytes) : List Frame :=
  chunks.map (mkFrame .stream (streamFlags .stdout false) clientRequestId) ++
    [mkFrame .stream (streamFlags .stdout true) clientRequestId [],
      mkFrame .stream (streamFlags .stderr true) clientRequestId []]

theorem accentedFrames_carries {chunks : List Bytes} (hall : chunks.flatten = accented.stdout) :
    Daemon.CarriesOutput clientRequestId accented (accentedFrames chunks) := by
  have hchunk : ∀ chunk ∈ chunks, chunk.length ≤ 2 := fun chunk hchunk => by
    have hsub := List.Sublist.length_le (List.sublist_flatten_of_mem hchunk)
    rw [hall] at hsub
    exact hsub
  have hcases : ∀ f ∈ accentedFrames chunks, (∃ chunk ∈ chunks, f = mkFrame .stream (streamFlags .stdout false)
      clientRequestId chunk) ∨ f = mkFrame .stream (streamFlags .stdout true) clientRequestId [] ∨
        f = mkFrame .stream (streamFlags .stderr true) clientRequestId [] := fun f hf => by
    simpa [accentedFrames, eq_comm] using hf
  refine ⟨fun f hf => ?_, fun f hf => ?_, ⟨chunks, hall, ?_⟩, ⟨[], rfl, ?_⟩⟩
  · rcases hcases f hf with ⟨chunk, hmem, rfl⟩ | rfl | rfl
    · exact mkFrame_valid ((hchunk chunk hmem).trans (by decide))
    · exact mkFrame_valid (by decide)
    · exact mkFrame_valid (by decide)
  · rcases hcases f hf with ⟨chunk, -, rfl⟩ | rfl | rfl
    · exact Or.inl (Frame.channel?_mkFrame ..)
    · exact Or.inl (Frame.channel?_mkFrame ..)
    · exact Or.inr (Frame.channel?_mkFrame ..)
  · have hstdout : ∀ cs : List Bytes, (cs.map (mkFrame .stream (streamFlags .stdout false) clientRequestId)).filter
        (fun f => f.channel? = some .stdout) = cs.map (mkFrame .stream (streamFlags .stdout false) clientRequestId) :=
      fun cs => List.filter_eq_self.mpr fun f hf => by
        obtain ⟨chunk, -, rfl⟩ := List.mem_map.mp hf
        simp
    rw [accentedFrames, List.filter_append, hstdout]
    simp
  · have hnone : ∀ cs : List Bytes, (cs.map (mkFrame .stream (streamFlags .stdout false) clientRequestId)).filter
        (fun f => f.channel? = some .stderr) = [] :=
      fun cs => List.filter_eq_nil_iff.mpr fun f hf => by
        obtain ⟨chunk, -, rfl⟩ := List.mem_map.mp hf
        simp
    rw [accentedFrames, List.filter_append, hnone]
    simp

/-- Read in two parts, the character is shown as two replacement characters. -/
theorem exec_texts_differ :
    Daemon.CarriesOutput clientRequestId accented (accentedFrames [[0xC3], [0xA9]]) ∧
      streamedText .stdout (runAgentExecStream exitCodec asksHost (framesBytes (accentedFrames [[0xC3], [0xA9]] ++
          [Daemon.responseFrame exitCodec.response clientRequestId (Daemon.resultResponse accented.status)]))).1 ≠
        reportedText .stdout (runAgentExec exitCodec asksHost (Daemon.execResponse (Daemon.executeCommand
          Daemon.testState asksHost.program asksHost.timeoutSecs
            (.finished accented.status accented.stdout accented.stderr)))) := by
  have hcarries : Daemon.CarriesOutput clientRequestId accented (accentedFrames [[0xC3], [0xA9]]) :=
    accentedFrames_carries rfl
  refine ⟨hcarries, ?_⟩
  have hstreamed := @streamedText_of_carries exitCodec asksHost accented _ .stdout (Or.inl rfl) hcarries exitCodec_fits
    exitCodec_decodes
  have hshown : (payloadsOn .stdout (accentedFrames [[0xC3], [0xA9]])).flatMap utf8Lossy =
      replacement ++ replacement := by decide +kernel
  have hreported := @reportedText_of_finished exitCodec asksHost Daemon.testState (by decide) .stdout (Or.inl rfl)
    accented
  rw [hstreamed, hshown, hreported]
  decide +kernel

theorem exec_texts_agree_accented :
    streamedText .stdout (runAgentExecStream exitCodec asksHost (framesBytes (accentedFrames [[0xC3, 0xA9]] ++
          [Daemon.responseFrame exitCodec.response clientRequestId (Daemon.resultResponse accented.status)]))).1 =
        reportedText .stdout (runAgentExec exitCodec asksHost (Daemon.execResponse (Daemon.executeCommand
          Daemon.testState asksHost.program asksHost.timeoutSecs
            (.finished accented.status accented.stdout accented.stderr)))) ↔
      CutAtBoundaries (payloadsOn .stdout (accentedFrames [[0xC3, 0xA9]])) :=
  exec_texts_agree_iff exitCodec asksHost Daemon.testState (by decide) accented _ (accentedFrames_carries rfl)
    exitCodec_fits exitCodec_decodes .stdout (Or.inl rfl)

end Client

end Rsdb
