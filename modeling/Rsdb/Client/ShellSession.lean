/-
# The client's shell session

`run_shell_session` has three parties: a task that reads the daemon's frames,
shows their output and hands every other frame to the loop through a channel; a
thread that reads the local stdin; and the loop, which forwards the stdin and ends
with the first frame it is handed.

A session is a state and the turns of these parties, in any order. Whatever the
daemon sends, in every state the terminals have what the frames taken so far carry
(`ShownSoFar`), and a status that is returned is that of a `ShellExit` behind frames of
output that have all been shown (`shell_session_shows_all`); and in every state the
task and the loop alone bring the session to its end (`exists_settled`).
-/
import Rsdb.Client.ExecEvents
import Rsdb.Transfer.Push

namespace Rsdb

namespace Client

/-! ### The session -/

/-- What a write to a terminal or to the socket does: all of it goes out, or some
bytes and an error, in the write itself or in the flush after it. -/
inductive Written where
  | all
  | failed (n : ℕ) (err : IoError) (flushing : Bool)

/-- The bytes that go out. -/
def Written.of (data : Bytes) : Written → Bytes
  | all => data
  | failed n _ _ => data.take n

/-- What the thread that reads the local stdin sends. -/
inductive StdinChunk where
  | data (bytes : Bytes)
  | eof
  | error (message : Str)

/-- A turn: the task reads a frame, the loop gets a chunk of stdin (nothing when
the thread is gone), or it gets what the task has sent. -/
inductive SessionEvent where
  | frame (shown : Written)
  | stdin (chunk : Option StdinChunk) (taken : Written)
  | receive

/-- The client in a shell session: its two ends of the connection, the channel between its
tasks, and what it has shown. -/
structure ShellSession where
  /-- What the daemon sends before it closes, as far as it is not read. -/
  input : Bytes
  payload : Bytes
  reading : Bool
  stdout : Bytes
  stderr : Bytes
  /-- In the channel to the loop; an error by its text. -/
  messages : List (Except Str Frame)
  stdinOpen : Bool
  /-- What the socket has taken. -/
  sent : Bytes
  status : Option (Except AnyhowError ℤ)

/-- How many frames wait in the channel. -/
def frameChannelCapacity : ℕ := 4

/-- `ProtocolError::Io`, as it is shown. -/
def ioErrorText (message : Str) : Str := str "I/O error: " ++ message

namespace ShellSession

/-- `frame_tx.send`, which waits for room; a task whose loop has ended stops. -/
def send (session : ShellSession) (message : Except Str Frame) (goesOn : Bool) : Option ShellSession :=
  if session.status.isSome then some { session with reading := false }
  else if session.messages.length < frameChannelCapacity then
    some { session with messages := session.messages ++ [message], reading := goesOn }
  else none

/-- `send_io_error`, which does not wait: the task stops in any case. -/
def trySend (session : ShellSession) (text : Str) : ShellSession :=
  if session.status.isNone ∧ session.messages.length < frameChannelCapacity then
    { session with messages := session.messages ++ [.error (ioErrorText text)], reading := false }
  else { session with reading := false }

/-- After a write to a local terminal. -/
def afterShown (session : ShellSession) : Written → Option ShellSession
  | .all => some session
  | .failed _ err _ => session.send (.error (ioErrorText err.message)) false

/-- The payload of a stream frame. -/
def showPayload (session : ShellSession) (stream : StreamFrameHeader) (shown : Written) : Option ShellSession :=
  if session.payload = [] then some session
  else
    match stream.channel with
    | .stdout => { session with stdout := session.stdout ++ shown.of session.payload }.afterShown shown
    | .stderr => { session with stderr := session.stderr ++ shown.of session.payload }.afterShown shown
    | other => some (session.trySend (str "unexpected stream channel during shell: " ++ other.debug))

/-- The session behind a read. -/
def took (session : ShellSession) (rest payload : Bytes) : ShellSession :=
  { session with input := rest, payload := payload }

/-- A turn of the task. -/
def readFrame (session : ShellSession) (shown : Written) : Option ShellSession :=
  match readFrameInto session.input session.payload with
  | (.error err, rest, payload) => (session.took rest payload).send (.error err.display) false
  | (.ok header, rest, payload) =>
    if header.kind = .stream then
      match decodeStreamFrameHeader header with
      | .error err => (session.took rest payload).send (.error err.display) false
      | .ok stream =>
        if stream.requestId ≠ clientRequestId then
          some ((session.took rest payload).trySend (str "request id mismatch: expected " ++
            decimal clientRequestId.toNat ++ str ", got " ++ decimal stream.requestId.toNat))
        else (session.took rest payload).showPayload stream shown
    -- the payload goes with the frame, and the buffer is a new one
    else (session.took rest []).send (.ok ⟨header, payload⟩) true

/-- A stdin frame and its flush. -/
def writeStdin (session : ShellSession) (eof : Bool) (data : Bytes) (taken : Written) (write flush : String) :
    ShellSession :=
  match (writeStreamFrame ([] : Bytes) clientRequestId .stdin eof data) with
  | (.error err, _) => { session with status := some (.error ((AnyhowError.ofProtocol err).context (str write))) }
  | (.ok (), bytes) =>
    match taken with
    | .all => { session with sent := session.sent ++ bytes }
    | .failed n err flushing =>
      let failure :=
        if flushing then (AnyhowError.ofIo err).context (str flush)
        else (⟨ioErrorText err.message, [.other, .io err.kind]⟩ : AnyhowError).context (str write)
      { session with sent := session.sent ++ bytes.take n, status := some (.error failure) }

/-- A chunk of stdin. -/
def forward (session : ShellSession) (chunk : Option StdinChunk) (taken : Written) : ShellSession :=
  match chunk with
  | some (.data data) => session.writeStdin false data taken "failed to forward stdin" "failed to flush forwarded stdin"
  | some .eof | none =>
    { session.writeStdin true [] taken "failed to finish stdin stream" "failed to flush stdin eof" with
      stdinOpen := false }
  | some (.error message) =>
    { session with status := some (.error (.bail (str "failed to read local stdin: " ++ message))) }

variable (codec : Codec)

/-- What a frame that the task hands over makes of the session. -/
def frameStatus (frame : Frame) : Except AnyhowError ℤ :=
  if frame.header.kind = .response then
    match decodeJson codec.decodeResponse frame .response with
    | .error err => .error ((AnyhowError.ofProtocol err).context (str "invalid response frame"))
    | .ok (.shellExit status) => .ok status
    | .ok (.error code message) => .error (.bail (str "remote error " ++ code.debug ++ str ": " ++ message))
    | .ok other => .error (unexpectedResponse codec other)
  else .error (.bail (str "unexpected frame kind during shell: " ++ frame.header.kind.debug))

/-- The status that a frame which is no output ends the session with. -/
def messageStatus : Except Str Frame → Except AnyhowError ℤ
  | .error text => .error (.bail (str "failed to read shell frame: " ++ text))
  | .ok frame => frameStatus codec frame

/-- `frame_rx.recv`, which waits while the task may still send. -/
def receive (session : ShellSession) : Option ShellSession :=
  match session.messages with
  | message :: messages => some { session with messages := messages, status := some (messageStatus codec message) }
  | [] =>
    if session.reading then none
    else some { session with status := some (.error (.bail (str "shell connection closed unexpectedly"))) }

/-- A turn, if its party can take it. -/
def step (session : ShellSession) : SessionEvent → Option ShellSession
  | .frame shown => if session.reading then session.readFrame shown else none
  | .stdin chunk taken =>
    if session.status.isNone ∧ session.stdinOpen = true then some (session.forward chunk taken) else none
  | .receive => if session.status.isNone then session.receive codec else none

/-- Turns, one after the other. -/
def run (session : ShellSession) : List SessionEvent → Option ShellSession
  | [] => some session
  | event :: events => (session.step codec event).bind fun session => session.run events

/-- The session behind `ShellStarted`; a command that is not interactive gets no
stdin, and its end is sent at once. -/
def start (interactive : Bool) (input : Bytes) (taken : Written) : ShellSession :=
  let session : ShellSession := ⟨input, [], true, [], [], [], interactive, [], none⟩
  if interactive then session
  else session.writeStdin true [] taken "failed to close remote stdin" "failed to flush remote stdin close"

end ShellSession

/-- What the session makes of the first response; the rest is what the task reads. -/
def openShell (codec : Codec) (wire : Bytes) : Except AnyhowError Bytes :=
  match readResponse codec wire with
  | .error err => .error err
  | .ok (.shellStarted _, rest) => .ok rest
  | .ok (.error code message, _) => .error (.bail (str "remote error " ++ code.debug ++ str ": " ++ message))
  | .ok (other, _) => .error (unexpectedResponse codec other)

/-- A status no process can have becomes 1. -/
def normalizeExitStatus (status : ℤ) : ℤ := if 0 ≤ status ∧ status ≤ 255 then status else 1

/-- The exit code of `shell_command` for the status of its session. -/
def shellExitCode (status : ℤ) : ℤ := if status ≠ 0 then normalizeExitStatus status else 0

/-! ### What the task has shown -/

/-- The output on a channel. -/
def outputOf (channel : StreamChannel) (frames : List (StreamChannel × Bytes)) : Bytes :=
  frames.flatMap fun frame => if frame.1 = channel then frame.2 else []

/-- Frames that a shell session shows: on the other channels there is nothing. -/
def Shown (frames : List (StreamChannel × Bytes)) : Prop := ∀ frame ∈ frames, frame.2 = [] ∨ IsOutput frame.1

/-- The message comes of the next read: a frame only of one that is no output. -/
def Hands (input buf : Bytes) (message : Except Str Frame) : Prop :=
  ∀ frame, message = .ok frame → frame.header.kind ≠ .stream ∧
    ∃ rest, readFrameInto input buf = (.ok frame.header, rest, frame.payload)

theorem outputOf_append (channel : StreamChannel) (a b : List (StreamChannel × Bytes)) :
    outputOf channel (a ++ b) = outputOf channel a ++ outputOf channel b := List.flatMap_append

theorem Accepts.snoc {input buf rest payload rest' payload' : Bytes} {frames : List (StreamChannel × Bytes)}
    {header : FrameHeader} {channel : StreamChannel} (h : Accepts input buf frames rest payload)
    (hread : readFrameInto rest payload = (.ok header, rest', payload')) (haccepted : acceptedChannel header = some channel) :
    Accepts input buf (frames ++ [(channel, payload')]) rest' payload' := by
  induction h with
  | none => exact .frame hread haccepted .none
  | frame hread' haccepted' _ ih => exact .frame hread' haccepted' (ih hread)

namespace ShellSession

variable {codec : Codec} {session after : ShellSession}

/-- The terminals have been given more, and the loop has done nothing. -/
structure Grew (session after : ShellSession) : Prop where
  stdout : session.stdout <+: after.stdout
  stderr : session.stderr <+: after.stderr
  status : after.status = session.status
  sent : after.sent = session.sent
  stdinOpen : after.stdinOpen = session.stdinOpen

/-- A frame of output has been read and shown. -/
structure ShowsFrame (session after : ShellSession) (frame : StreamChannel × Bytes) : Prop where
  accepted : ∃ header, readFrameInto session.input session.payload = (.ok header, after.input, after.payload) ∧
    acceptedChannel header = some frame.1 ∧ frame.2 = after.payload
  output : frame.2 = [] ∨ IsOutput frame.1
  stdout : after.stdout = session.stdout ++ outputOf .stdout [frame]
  stderr : after.stderr = session.stderr ++ outputOf .stderr [frame]
  reading : after.reading = session.reading
  messages : after.messages = session.messages

/-- The task has handed a message over, or dropped one for want of room. -/
def HandsOver (session after : ShellSession) : Prop :=
  (∃ message, Hands session.input session.payload message ∧ after.messages = session.messages ++ [message]) ∨
    (session.messages ≠ [] ∧ after.messages = session.messages)

theorem Grew.refl (session : ShellSession) : Grew session session :=
  ⟨List.prefix_rfl, List.prefix_rfl, rfl, rfl, rfl⟩

theorem Grew.trans {middle : ShellSession} (h : Grew session middle) (h' : Grew middle after) : Grew session after :=
  ⟨h.stdout.trans h'.stdout, h.stderr.trans h'.stderr, h'.status.trans h.status, h'.sent.trans h.sent,
    h'.stdinOpen.trans h.stdinOpen⟩

theorem grew_took (session : ShellSession) (rest payload : Bytes) : Grew session (session.took rest payload) :=
  ⟨List.prefix_rfl, List.prefix_rfl, rfl, rfl, rfl⟩

theorem send_cases {message : Except Str Frame} {goesOn : Bool} (h : session.send message goesOn = some after) :
    Grew session after ∧ (session.status = none → after.messages = session.messages ++ [message]) := by
  unfold send at h
  split at h
  · rename_i hended
    obtain rfl := Option.some.inj h
    exact ⟨⟨List.prefix_rfl, List.prefix_rfl, rfl, rfl, rfl⟩, fun hnone => by simp [hnone] at hended⟩
  · split at h
    · obtain rfl := Option.some.inj h
      exact ⟨⟨List.prefix_rfl, List.prefix_rfl, rfl, rfl, rfl⟩, fun _ => rfl⟩
    · cases h

theorem trySend_cases (session : ShellSession) (text : Str) :
    Grew session (session.trySend text) ∧ (session.status = none →
      (session.trySend text).messages = session.messages ++ [.error (ioErrorText text)] ∨
        session.messages ≠ [] ∧ (session.trySend text).messages = session.messages) := by
  unfold trySend
  split
  · exact ⟨⟨List.prefix_rfl, List.prefix_rfl, rfl, rfl, rfl⟩, fun _ => Or.inl rfl⟩
  · rename_i hfull
    refine ⟨⟨List.prefix_rfl, List.prefix_rfl, rfl, rfl, rfl⟩, fun hnone => Or.inr ⟨fun hnil => hfull ?_, rfl⟩⟩
    rw [hnone, hnil]
    exact ⟨rfl, by decide⟩

theorem hands_error (input buf : Bytes) (text : Str) : Hands input buf (.error text) := fun _ h => by cases h

/-- After a write to a terminal that has been given what it shows. -/
theorem afterShown_cases {shown : Written} (h : session.afterShown shown = some after) :
    Grew session after ∧ (shown = .all ∧ after = session ∨ (session.status = none →
      ∃ text, after.messages = session.messages ++ [.error text])) := by
  cases shown with
  | all =>
    obtain rfl := Option.some.inj h
    exact ⟨.refl _, Or.inl ⟨rfl, rfl⟩⟩
  | failed n err flushing =>
    obtain ⟨hgrew, hmessages⟩ := send_cases h
    exact ⟨hgrew, Or.inr fun hnone => ⟨_, hmessages hnone⟩⟩

/-- The payload of a frame is shown, or a message says why it is not. -/
theorem showPayload_cases {stream : StreamFrameHeader} {shown : Written}
    (h : session.showPayload stream shown = some after) :
    Grew session after ∧
      ((session.payload = [] ∨ IsOutput stream.channel) ∧
          after = { session with
            stdout := session.stdout ++ outputOf .stdout [(stream.channel, session.payload)]
            stderr := session.stderr ++ outputOf .stderr [(stream.channel, session.payload)] } ∨
        (session.status = none → (∃ text, after.messages = session.messages ++ [.error text]) ∨
          session.messages ≠ [] ∧ after.messages = session.messages)) := by
  unfold showPayload at h
  split at h
  · rename_i hnil
    obtain rfl := Option.some.inj h
    have hnone : ∀ channel, outputOf channel [(stream.channel, session.payload)] = [] := by simp [outputOf, hnil]
    exact ⟨.refl _, Or.inl ⟨Or.inl hnil, by rw [hnone, hnone, List.append_nil, List.append_nil]⟩⟩
  · split at h
    · rename_i hchannel
      have hgiven : Grew session { session with stdout := session.stdout ++ shown.of session.payload } :=
        ⟨List.prefix_append _ _, List.prefix_rfl, rfl, rfl, rfl⟩
      obtain ⟨hgrew, ⟨rfl, rfl⟩ | hmessages⟩ := afterShown_cases h
      · exact ⟨hgiven, Or.inl ⟨Or.inr (Or.inl hchannel), by simp [outputOf, hchannel, Written.of]⟩⟩
      · exact ⟨hgiven.trans hgrew, Or.inr fun hnone => Or.inl (hmessages hnone)⟩
    · rename_i hchannel
      have hgiven : Grew session { session with stderr := session.stderr ++ shown.of session.payload } :=
        ⟨List.prefix_rfl, List.prefix_append _ _, rfl, rfl, rfl⟩
      obtain ⟨hgrew, ⟨rfl, rfl⟩ | hmessages⟩ := afterShown_cases h
      · exact ⟨hgiven, Or.inl ⟨Or.inr (Or.inr hchannel), by simp [outputOf, hchannel, Written.of]⟩⟩
      · exact ⟨hgiven.trans hgrew, Or.inr fun hnone => Or.inl (hmessages hnone)⟩
    · obtain rfl := Option.some.inj h
      obtain ⟨hgrew, hmessages⟩ := trySend_cases session
        (str "unexpected stream channel during shell: " ++ stream.channel.debug)
      exact ⟨hgrew, Or.inr fun hnone => (hmessages hnone).imp_left fun hsent => ⟨_, hsent⟩⟩

/-- What a turn of the task does: it shows a frame of output, or hands a message over. -/
theorem readFrame_cases {shown : Written} (h : session.readFrame shown = some after) :
    Grew session after ∧
      (session.status = none → (∃ frame, ShowsFrame session after frame) ∨ HandsOver session after) := by
  -- an error that is handed over
  have herror : ∀ {rest payload text}, ((session.took rest payload).send (.error text) false = some after) →
      Grew session after ∧ (session.status = none → HandsOver session after) := by
    intro rest payload text h
    obtain ⟨hgrew, hmessages⟩ := send_cases h
    exact ⟨(grew_took _ _ _).trans hgrew, fun hnone => Or.inl ⟨_, hands_error _ _ text, hmessages hnone⟩⟩
  unfold readFrame at h
  split at h
  · exact (herror h).imp_right fun hhands hnone => Or.inr (hhands hnone)
  rename_i header rest payload hread
  split at h
  · split at h
    · exact (herror h).imp_right fun hhands hnone => Or.inr (hhands hnone)
    rename_i stream hdecode
    split at h
    · obtain rfl := Option.some.inj h
      obtain ⟨hgrew, hmessages⟩ := trySend_cases (session.took rest payload) (str "request id mismatch: expected " ++
        decimal clientRequestId.toNat ++ str ", got " ++ decimal stream.requestId.toNat)
      refine ⟨(grew_took _ _ _).trans hgrew, fun hnone => Or.inr ?_⟩
      exact (hmessages hnone).imp_left fun hsent => ⟨_, hands_error _ _ _, hsent⟩
    rename_i hid
    have haccepted : acceptedChannel header = some stream.channel := by
      simp only [acceptedChannel, hdecode, if_pos (not_not.mp hid)]
    obtain ⟨hgrew, ⟨houtput, hafter⟩ | hmessages⟩ := showPayload_cases h
    · refine ⟨(grew_took _ _ _).trans hgrew, fun _ => Or.inl ⟨(stream.channel, payload), ?_⟩⟩
      rw [hafter]
      exact ⟨⟨header, hread, haccepted, rfl⟩, houtput, rfl, rfl, rfl, rfl⟩
    · refine ⟨(grew_took _ _ _).trans hgrew, fun hnone => Or.inr ?_⟩
      refine (hmessages hnone).imp_left fun hsent => ?_
      obtain ⟨text, hsent⟩ := hsent
      exact ⟨_, hands_error _ _ text, hsent⟩
  · rename_i hkind
    obtain ⟨hgrew, hmessages⟩ := send_cases h
    refine ⟨(grew_took _ _ _).trans hgrew, fun hnone => Or.inr (Or.inl ⟨_, ?_, hmessages hnone⟩)⟩
    intro frame hframe
    obtain rfl := Except.ok.inj hframe
    exact ⟨hkind, rest, hread⟩

/-! ### Any run -/

/-- Where the session is behind the output of `frames`, by the status it has: the
task has shown them and has done no more, or a message of the next read waits for
the loop; or the loop has ended with an error, or with that message. -/
def Stage (codec : Codec) (frames : List (StreamChannel × Bytes)) (rest buf : Bytes) (session : ShellSession) :
    Option (Except AnyhowError ℤ) → Prop
  | none =>
    (session.messages = [] ∧ session.reading = true ∧ session.input = rest ∧ session.payload = buf ∧
      session.stdout = outputOf .stdout frames ∧ session.stderr = outputOf .stderr frames) ∨
    ∃ message messages, session.messages = message :: messages ∧ Hands rest buf message
  | some (.error _) => True
  | some (.ok status) => ∃ message, Hands rest buf message ∧ messageStatus codec message = .ok status

/-- How far the session has come with what the daemon sends. -/
def Follows (codec : Codec) (input : Bytes) (session : ShellSession) : Prop :=
  ∃ frames rest buf, Accepts input [] frames rest buf ∧ Shown frames ∧
    outputOf .stdout frames <+: session.stdout ∧ outputOf .stderr frames <+: session.stderr ∧
    Stage codec frames rest buf session session.status

/-- A turn of the task keeps the session on its way. -/
theorem Follows.readFrame {input : Bytes} {shown : Written} (h : Follows codec input session)
    (hturn : session.readFrame shown = some after) (hreading : session.reading = true) : Follows codec input after := by
  obtain ⟨frames, rest, buf, haccepts, hshown, hstdout, hstderr, hwhere⟩ := h
  obtain ⟨hgrew, hcases⟩ := readFrame_cases hturn
  cases hstatus : session.status with
  | some status =>
    refine ⟨frames, rest, buf, haccepts, hshown, hstdout.trans hgrew.stdout, hstderr.trans hgrew.stderr, ?_⟩
    rw [hstatus] at hwhere
    rw [hgrew.status, hstatus]
    cases status with
    | error err => trivial
    | ok status => exact hwhere
  | none =>
    rw [hstatus] at hwhere
    rcases hwhere with ⟨hnil, -, rfl, rfl, hout, herr⟩ | ⟨message, messages, hmessages, hhands⟩
    · rcases hcases hstatus with ⟨frame, hframe⟩ | hhands
      · -- one more frame of output
        obtain ⟨header, hread, haccepted, hpayload⟩ := hframe.accepted
        have hmore := haccepts.snoc hread haccepted
        rw [← hpayload, Prod.mk.eta] at hmore
        have hout' : after.stdout = outputOf .stdout (frames ++ [frame]) := by
          rw [hframe.stdout, hout, outputOf_append]
        have herr' : after.stderr = outputOf .stderr (frames ++ [frame]) := by
          rw [hframe.stderr, herr, outputOf_append]
        have hshown' : Shown (frames ++ [frame]) :=
          List.forall_mem_append.mpr ⟨hshown, List.forall_mem_singleton.mpr hframe.output⟩
        refine ⟨frames ++ [frame], after.input, frame.2, hmore, hshown', hout' ▸ List.prefix_rfl,
          herr' ▸ List.prefix_rfl, ?_⟩
        rw [hgrew.status, hstatus]
        exact Or.inl ⟨hframe.messages.trans hnil, hframe.reading.trans hreading, rfl, hpayload.symm, hout', herr'⟩
      · -- the first message
        refine ⟨frames, session.input, session.payload, haccepts, hshown, hstdout.trans hgrew.stdout,
          hstderr.trans hgrew.stderr, ?_⟩
        rw [hgrew.status, hstatus]
        rcases hhands with ⟨message, hhands, hmessages⟩ | ⟨hne, -⟩
        · exact Or.inr ⟨message, [], by rw [hmessages, hnil, List.nil_append], hhands⟩
        · exact absurd hnil hne
    · -- a message waits already
      refine ⟨frames, rest, buf, haccepts, hshown, hstdout.trans hgrew.stdout, hstderr.trans hgrew.stderr, ?_⟩
      rw [hgrew.status, hstatus]
      have hkept : session.messages <+: after.messages := by
        rcases hcases hstatus with ⟨frame, hframe⟩ | ⟨last, -, hlast⟩ | ⟨-, hsame⟩
        · rw [hframe.messages]
        · rw [hlast]
          exact List.prefix_append _ _
        · rw [hsame]
      obtain ⟨more, hmore⟩ := hkept
      exact Or.inr ⟨message, messages ++ more, by rw [← hmore, hmessages, List.cons_append], hhands⟩

/-! ### What has been shown so far -/

/-- What the task takes of the input, and the bytes and the buffer that are left: frames
of output, and other frames, which it hands to the loop. -/
inductive Takes (input : Bytes) : List (StreamChannel × Bytes) → Bytes → Bytes → Prop where
  | none : Takes input [] input []
  | output {frames : List (StreamChannel × Bytes)} {rest buf rest' payload : Bytes} {header : FrameHeader}
      {channel : StreamChannel} (h : Takes input frames rest buf)
      (hread : readFrameInto rest buf = (.ok header, rest', payload)) (haccepted : acceptedChannel header = some channel)
      (hshown : payload = [] ∨ IsOutput channel) : Takes input (frames ++ [(channel, payload)]) rest' payload
  | other {frames : List (StreamChannel × Bytes)} {rest buf rest' payload : Bytes} {header : FrameHeader}
      (h : Takes input frames rest buf) (hread : readFrameInto rest buf = (.ok header, rest', payload))
      (hkind : header.kind ≠ .stream) : Takes input frames rest' []

/-- Where the task stops: at what is no frame of output, or at output of which only a
beginning goes out. -/
def StopsAt (input buf : Bytes) (last : List (StreamChannel × Bytes)) : Prop :=
  (last = [] ∧ ∀ header rest payload channel, readFrameInto input buf = (.ok header, rest, payload) →
      acceptedChannel header = some channel → payload ≠ [] ∧ ¬ IsOutput channel) ∨
    ∃ header rest payload channel n, readFrameInto input buf = (.ok header, rest, payload) ∧
      acceptedChannel header = some channel ∧ IsOutput channel ∧ last = [(channel, payload.take n)]

/-- The terminals have what the frames taken so far carry on their channels, and the task
is behind these frames; or it has stopped at the next one. -/
structure ShownSoFar (input : Bytes) (session : ShellSession) (frames last : List (StreamChannel × Bytes))
    (rest buf : Bytes) : Prop where
  takes : Takes input frames rest buf
  stdout : session.stdout = outputOf .stdout (frames ++ last)
  stderr : session.stderr = outputOf .stderr (frames ++ last)
  reading : session.reading = true → last = [] ∧ session.input = rest ∧ session.payload = buf
  stopped : session.reading = false → StopsAt rest buf last

/-- The task has read nothing, and the terminals have been given nothing. -/
structure Quiet (session after : ShellSession) : Prop where
  input : after.input = session.input
  payload : after.payload = session.payload
  stdout : after.stdout = session.stdout
  stderr : after.stderr = session.stderr

theorem send_quiet {message : Except Str Frame} {goesOn : Bool} (h : session.send message goesOn = some after) :
    Quiet session after ∧ (after.reading = goesOn ∨ after.reading = false) := by
  unfold send at h
  split at h
  · obtain rfl := Option.some.inj h
    exact ⟨⟨rfl, rfl, rfl, rfl⟩, Or.inr rfl⟩
  · split at h
    · obtain rfl := Option.some.inj h
      exact ⟨⟨rfl, rfl, rfl, rfl⟩, Or.inl rfl⟩
    · cases h

theorem trySend_quiet (session : ShellSession) (text : Str) :
    Quiet session (session.trySend text) ∧ (session.trySend text).reading = false := by
  unfold trySend
  split <;> exact ⟨⟨rfl, rfl, rfl, rfl⟩, rfl⟩

/-- The task stops at the next frame, of which a part may have gone out. -/
def Stops (session after : ShellSession) : Prop :=
  after.reading = false ∧ ∃ last, StopsAt session.input session.payload last ∧
    after.stdout = session.stdout ++ outputOf .stdout last ∧ after.stderr = session.stderr ++ outputOf .stderr last

/-- The task stops, and nothing of the next frame goes out. -/
theorem Stops.of_quiet {rest payload' : Bytes} (h : Quiet (session.took rest payload') after) (hreading : after.reading = false)
    (hnext : ∀ header rest payload channel, readFrameInto session.input session.payload = (.ok header, rest, payload) →
      acceptedChannel header = some channel → payload ≠ [] ∧ ¬ IsOutput channel) : Stops session after :=
  ⟨hreading, [], Or.inl ⟨rfl, hnext⟩, h.stdout.trans (List.append_nil _).symm, h.stderr.trans (List.append_nil _).symm⟩

/-- The task hands a frame to the loop. -/
def HandsFrame (session after : ShellSession) : Prop :=
  ∃ header payload, readFrameInto session.input session.payload = (.ok header, after.input, payload) ∧
    header.kind ≠ .stream ∧ after.payload = [] ∧ after.stdout = session.stdout ∧ after.stderr = session.stderr

/-- The payload of a frame of output, behind its read. -/
theorem showPayload_turn {header : FrameHeader} {stream : StreamFrameHeader} {shown : Written} {rest payload : Bytes}
    (hread : readFrameInto session.input session.payload = (.ok header, rest, payload))
    (haccepted : acceptedChannel header = some stream.channel)
    (h : (session.took rest payload).showPayload stream shown = some after) :
    (∃ frame, ShowsFrame session after frame) ∨ Stops session after := by
  have hframe : (payload = [] ∨ IsOutput stream.channel) →
      after = { session.took rest payload with
        stdout := session.stdout ++ outputOf .stdout [(stream.channel, payload)]
        stderr := session.stderr ++ outputOf .stderr [(stream.channel, payload)] } →
      ∃ frame, ShowsFrame session after frame := by
    rintro houtput rfl
    exact ⟨(stream.channel, payload), ⟨header, hread, haccepted, rfl⟩, houtput, rfl, rfl, rfl, rfl⟩
  -- a write of which a part goes out
  have hpart : ∀ n, IsOutput stream.channel → after.reading = false →
      after.stdout = session.stdout ++ outputOf .stdout [(stream.channel, payload.take n)] →
        after.stderr = session.stderr ++ outputOf .stderr [(stream.channel, payload.take n)] → Stops session after :=
    fun n houtput hreading hout herr =>
      ⟨hreading, _, Or.inr ⟨header, rest, payload, stream.channel, n, hread, haccepted, houtput, rfl⟩, hout, herr⟩
  unfold showPayload at h
  split at h
  · rename_i hnil
    obtain rfl : payload = [] := hnil
    refine Or.inl (hframe (Or.inl rfl) ?_)
    have hnone : ∀ channel, outputOf channel [(stream.channel, ([] : Bytes))] = [] := by simp [outputOf]
    rw [hnone, hnone, List.append_nil, List.append_nil]
    exact (Option.some.inj h).symm
  · rename_i hne
    split at h
    · rename_i hchannel
      cases shown with
      | all =>
        refine Or.inl (hframe (Or.inr (Or.inl hchannel)) ?_)
        rw [hchannel]
        simpa [outputOf, Written.of, afterShown, took] using h.symm
      | failed n err flushing =>
        obtain ⟨hquiet, hreading⟩ := send_quiet h
        refine Or.inr (hpart n (Or.inl hchannel) (hreading.elim id id) ?_ ?_)
        · rw [hquiet.stdout, hchannel]
          simp [outputOf, Written.of, took]
        · rw [hquiet.stderr, hchannel]
          simp [outputOf, took]
    · rename_i hchannel
      cases shown with
      | all =>
        refine Or.inl (hframe (Or.inr (Or.inr hchannel)) ?_)
        rw [hchannel]
        simpa [outputOf, Written.of, afterShown, took] using h.symm
      | failed n err flushing =>
        obtain ⟨hquiet, hreading⟩ := send_quiet h
        refine Or.inr (hpart n (Or.inr hchannel) (hreading.elim id id) ?_ ?_)
        · rw [hquiet.stdout, hchannel]
          simp [outputOf, took]
        · rw [hquiet.stderr, hchannel]
          simp [outputOf, Written.of, took]
    · rename_i hnotout hnoterr
      obtain rfl := Option.some.inj h
      obtain ⟨hquiet, hreading⟩ := trySend_quiet (session.took rest payload)
        (str "unexpected stream channel during shell: " ++ stream.channel.debug)
      refine Or.inr (Stops.of_quiet hquiet hreading fun header' rest' payload' channel hread' haccepted' => ?_)
      obtain ⟨hheader, hrest⟩ := Prod.mk.inj (hread.symm.trans hread')
      obtain rfl := Except.ok.inj hheader
      obtain ⟨rfl, rfl⟩ := Prod.mk.inj hrest
      obtain rfl := Option.some.inj (haccepted.symm.trans haccepted')
      exact ⟨hne, not_or.mpr ⟨hnotout, hnoterr⟩⟩

theorem acceptedChannel_of_kind {header : FrameHeader} (h : header.kind ≠ .stream) : acceptedChannel header = none := by
  rw [acceptedChannel, decodeStreamFrameHeader, if_pos h]

/-- What a turn of the task does: it shows a frame, hands one over, or stops. -/
theorem readFrame_turn {shown : Written} (h : session.readFrame shown = some after) :
    (∃ frame, ShowsFrame session after frame) ∨ (after.reading = true ∧ HandsFrame session after) ∨ Stops session after := by
  -- a message that is no output
  have hstops : ∀ {rest payload payload' message goesOn} {result : Except ProtocolError FrameHeader},
      readFrameInto session.input session.payload = (result, rest, payload) →
        (∀ header, result = .ok header → acceptedChannel header = none) →
          (session.took rest payload').send message goesOn = some after → after.reading = false → Stops session after := by
    intro rest payload payload' message goesOn result hread hnone h hreading
    refine Stops.of_quiet (send_quiet h).1 hreading fun header rest' payload' channel hread' haccepted => ?_
    have hheader : result = .ok header := (Prod.mk.inj (hread.symm.trans hread')).1
    rw [hnone header hheader] at haccepted
    cases haccepted
  unfold readFrame at h
  split at h
  · rename_i err rest payload hread
    exact Or.inr (Or.inr (hstops hread nofun h ((send_quiet h).2.elim id id)))
  rename_i header rest payload hread
  split at h
  · split at h
    · rename_i err hdecode
      have hnone : acceptedChannel header = none := by rw [acceptedChannel, hdecode]
      refine Or.inr (Or.inr (hstops hread (fun header' hheader => ?_) h ((send_quiet h).2.elim id id)))
      rwa [← Except.ok.inj hheader]
    rename_i stream hdecode
    split at h
    · rename_i hid
      obtain rfl := Option.some.inj h
      obtain ⟨hquiet, hreading⟩ := trySend_quiet (session.took rest payload) (str "request id mismatch: expected " ++
        decimal clientRequestId.toNat ++ str ", got " ++ decimal stream.requestId.toNat)
      refine Or.inr (Or.inr (Stops.of_quiet hquiet hreading fun header' rest' payload' channel hread' haccepted => ?_))
      obtain rfl := Except.ok.inj (Prod.mk.inj (hread.symm.trans hread')).1
      simp only [acceptedChannel, hdecode, if_neg hid] at haccepted
      cases haccepted
    · rename_i hid
      have haccepted : acceptedChannel header = some stream.channel := by
        simp only [acceptedChannel, hdecode, if_pos (not_not.mp hid)]
      exact (showPayload_turn hread haccepted h).imp_right Or.inr
  · rename_i hkind
    obtain ⟨hquiet, hgoesOn⟩ := send_quiet h
    cases hreading : after.reading with
    | true =>
      refine Or.inr (Or.inl ⟨rfl, header, payload, ?_, hkind, hquiet.payload, hquiet.stdout, hquiet.stderr⟩)
      rw [hquiet.input]
      exact hread
    | false =>
      refine Or.inr (Or.inr (hstops hread (fun header' hheader => ?_) h hreading))
      rw [← Except.ok.inj hheader]
      exact acceptedChannel_of_kind hkind

/-- A turn of the task keeps what is on the terminals in step with what it has taken. -/
theorem ShownSoFar.readFrame {input : Bytes} {frames last : List (StreamChannel × Bytes)} {rest buf : Bytes}
    {shown : Written} (h : ShownSoFar input session frames last rest buf) (hreading : session.reading = true)
    (hturn : session.readFrame shown = some after) : ∃ frames last rest buf, ShownSoFar input after frames last rest buf := by
  obtain ⟨rfl, rfl, rfl⟩ := h.reading hreading
  have hout := h.stdout
  have herr := h.stderr
  rw [List.append_nil] at hout herr
  rcases readFrame_turn hturn with ⟨frame, hframe⟩ | ⟨hgoesOn, hhands⟩ | ⟨hstopped, last, hstops, hout', herr'⟩
  · obtain ⟨header, hread, haccepted, hpayload⟩ := hframe.accepted
    have hreading' : after.reading = true := hframe.reading.trans hreading
    refine ⟨frames ++ [frame], [], after.input, after.payload, ?_, ?_, ?_, fun _ => ⟨rfl, rfl, rfl⟩, fun hno => ?_⟩
    · have htakes := h.takes.output hread haccepted (hpayload ▸ hframe.output)
      rwa [← hpayload, Prod.mk.eta, hpayload] at htakes
    · rw [List.append_nil, hframe.stdout, hout, outputOf_append]
    · rw [List.append_nil, hframe.stderr, herr, outputOf_append]
    · rw [hreading'] at hno
      cases hno
  · obtain ⟨header, payload, hread, hkind, hpayload, hout', herr'⟩ := hhands
    refine ⟨frames, [], after.input, [], h.takes.other hread hkind, ?_, ?_, fun _ => ⟨rfl, rfl, hpayload⟩, fun hno => ?_⟩
    · rw [List.append_nil, hout', hout]
    · rw [List.append_nil, herr', herr]
    · rw [hgoesOn] at hno
      cases hno
  · refine ⟨frames, last, session.input, session.payload, h.takes, ?_, ?_, fun hgoesOn => ?_, fun _ => hstops⟩
    · rw [hout', hout, outputOf_append]
    · rw [herr', herr, outputOf_append]
    · rw [hstopped] at hgoesOn
      cases hgoesOn


/-! ### What the daemon gets -/

/-- The stdin frames of a chunk. -/
def chunkFrames : Option StdinChunk → List Frame
  | some (.data data) => [mkFrame .stream (streamFlags .stdin false) clientRequestId data]
  | some .eof | none => [mkFrame .stream (streamFlags .stdin true) clientRequestId []]
  | some (.error _) => []

/-- A write of stdin leaves its frame, or a part of it and an error. -/
theorem writeStdin_cases (session : ShellSession) (eof : Bool) (data : Bytes) (taken : Written) (write flush : String) :
    ∃ sent failure, session.writeStdin eof data taken write flush = { session with sent := sent, status := failure } ∧
      (failure = session.status ∧
          sent = session.sent ++ framesBytes [mkFrame .stream (streamFlags .stdin eof) clientRequestId data] ∨
        (∃ err, failure = some (.error err)) ∧ ∃ part,
          part <+: framesBytes [mkFrame .stream (streamFlags .stdin eof) clientRequestId data] ∧
            sent = session.sent ++ part) := by
  rw [framesBytes_cons, framesBytes_nil, List.append_nil]
  unfold writeStdin writeStreamFrame
  by_cases hfits : data.length ≤ maxPayloadLen
  · rw [writeHeaderAndPayload_of_le _ _ _ _ hfits]
    cases taken with
    | all => exact ⟨_, session.status, rfl, Or.inl ⟨rfl, rfl⟩⟩
    | failed n err flushing => exact ⟨_, _, rfl, Or.inr ⟨⟨_, rfl⟩, _, List.take_prefix _ _, rfl⟩⟩
  · rw [writeHeaderAndPayload_of_too_large _ _ _ _ (by omega)]
    exact ⟨session.sent, _, rfl, Or.inr ⟨⟨_, rfl⟩, [], List.nil_prefix, (List.append_nil _).symm⟩⟩

/-- What a chunk of stdin makes of the session. -/
theorem forward_cases (session : ShellSession) (chunk : Option StdinChunk) (taken : Written) :
    ∃ sent failure isOpen, session.forward chunk taken =
        { session with sent := sent, status := failure, stdinOpen := isOpen } ∧
      (failure = session.status ∧ sent = session.sent ++ framesBytes (chunkFrames chunk) ∧
          (isOpen = session.stdinOpen ∧ (∃ data, chunk = some (.data data)) ∨
            isOpen = false ∧ (chunk = some .eof ∨ chunk = none)) ∨
        (∃ err, failure = some (.error err)) ∧ ∃ part, part <+: framesBytes (chunkFrames chunk) ∧
          sent = session.sent ++ part) := by
  have hend : ∃ sent failure, session.writeStdin true [] taken "failed to finish stdin stream" "failed to flush stdin eof" =
      { session with sent := sent, status := failure } ∧
        (failure = session.status ∧ sent = session.sent ++ framesBytes (chunkFrames none) ∨
          (∃ err, failure = some (.error err)) ∧ ∃ part, part <+: framesBytes (chunkFrames none) ∧
            sent = session.sent ++ part) := writeStdin_cases session true [] taken _ _
  obtain ⟨sent, failure, hafter, hended⟩ := hend
  match chunk with
  | some (.data data) =>
    obtain ⟨sent, failure, hafter, ⟨hfailure, hsent⟩ | hfailed⟩ := writeStdin_cases session false data taken
      "failed to forward stdin" "failed to flush forwarded stdin"
    · exact ⟨sent, failure, session.stdinOpen, hafter, Or.inl ⟨hfailure, hsent, Or.inl ⟨rfl, data, rfl⟩⟩⟩
    · exact ⟨sent, failure, session.stdinOpen, hafter, Or.inr hfailed⟩
  | some .eof =>
    refine ⟨sent, failure, false, by rw [forward, hafter], ?_⟩
    exact hended.imp_left fun h => ⟨h.1, h.2, Or.inr ⟨rfl, Or.inl rfl⟩⟩
  | none =>
    refine ⟨sent, failure, false, by rw [forward, hafter], ?_⟩
    exact hended.imp_left fun h => ⟨h.1, h.2, Or.inr ⟨rfl, Or.inr rfl⟩⟩
  | some (.error message) =>
    exact ⟨session.sent, _, session.stdinOpen, rfl, Or.inr ⟨⟨_, rfl⟩, [], List.nil_prefix, (List.append_nil _).symm⟩⟩

/-- A turn keeps the session on its way. -/
theorem Follows.step {input : Bytes} {event : SessionEvent} (h : Follows codec input session)
    (hturn : session.step codec event = some after) : Follows codec input after := by
  cases event with
  | frame shown =>
    unfold ShellSession.step at hturn
    simp only at hturn
    split at hturn
    · rename_i hreading
      exact h.readFrame hturn hreading
    · cases hturn
  | stdin chunk taken =>
    unfold ShellSession.step at hturn
    simp only at hturn
    split at hturn
    · obtain rfl := Option.some.inj hturn
      obtain ⟨sent, failure, isOpen, hafter, hcases⟩ := forward_cases session chunk taken
      obtain ⟨frames, rest, buf, haccepts, hshown, hstdout, hstderr, hwhere⟩ := h
      rw [hafter]
      refine ⟨frames, rest, buf, haccepts, hshown, hstdout, hstderr, ?_⟩
      rcases hcases with ⟨rfl, -⟩ | ⟨⟨err, rfl⟩, -⟩
      · exact hwhere
      · trivial
    · cases hturn
  | receive =>
    unfold ShellSession.step at hturn
    simp only at hturn
    split at hturn
    · rename_i hnone
      obtain ⟨frames, rest, buf, haccepts, hshown, hstdout, hstderr, hwhere⟩ := h
      unfold ShellSession.receive at hturn
      split at hturn
      · rename_i message messages hmessages
        obtain rfl := Option.some.inj hturn
        refine ⟨frames, rest, buf, haccepts, hshown, hstdout, hstderr, ?_⟩
        rw [Option.isNone_iff_eq_none.mp hnone] at hwhere
        rcases hwhere with ⟨hnil, -⟩ | ⟨first, others, hfirst, hhands⟩
        · rw [hnil] at hmessages
          cases hmessages
        · obtain ⟨rfl, rfl⟩ := List.cons.inj (hmessages.symm.trans hfirst)
          show Stage codec frames rest buf _ (some (messageStatus codec message))
          cases hstatus : messageStatus codec message with
          | error err => trivial
          | ok status => exact ⟨message, hhands, hstatus⟩
      · split at hturn
        · cases hturn
        · obtain rfl := Option.some.inj hturn
          exact ⟨frames, rest, buf, haccepts, hshown, hstdout, hstderr, trivial⟩
    · cases hturn

theorem run_cons_iff {event : SessionEvent} {events : List SessionEvent} :
    session.run codec (event :: events) = some after ↔
      ∃ middle, session.step codec event = some middle ∧ middle.run codec events = some after := Option.bind_eq_some_iff

theorem Follows.run {input : Bytes} : ∀ {events : List SessionEvent} {session : ShellSession},
    Follows codec input session → session.run codec events = some after → Follows codec input after
  | [], _, h, hrun => by
    obtain rfl := Option.some.inj hrun
    exact h
  | event :: events, _, h, hrun => by
    obtain ⟨middle, hstep, hrest⟩ := run_cons_iff.mp hrun
    exact (h.step hstep).run hrest

theorem start_follows (interactive : Bool) (input : Bytes) (taken : Written) :
    Follows codec input (start interactive input taken) := by
  have hfresh : ∀ sent failure, (failure = none ∨ ∃ err, failure = some (.error err)) →
      Follows codec input ⟨input, [], true, [], [], [], interactive, sent, failure⟩ := by
    rintro sent failure (rfl | ⟨err, rfl⟩)
    · exact ⟨[], input, [], .none, by simp [Shown], List.prefix_rfl, List.prefix_rfl, Or.inl ⟨rfl, rfl, rfl, rfl, rfl, rfl⟩⟩
    · exact ⟨[], input, [], .none, by simp [Shown], List.prefix_rfl, List.prefix_rfl, trivial⟩
  unfold start
  cases interactive with
  | true => exact hfresh [] none (Or.inl rfl)
  | false =>
    obtain ⟨sent, failure, hafter, hcases⟩ := writeStdin_cases ⟨input, [], true, [], [], [], false, [], none⟩ true []
      taken "failed to close remote stdin" "failed to flush remote stdin close"
    simp only [Bool.false_eq_true, ↓reduceIte]
    rw [hafter]
    exact hfresh sent failure (hcases.imp And.left And.left)

/-- Other turns take nothing of the input and show nothing. -/
theorem ShownSoFar.congr {input : Bytes} {frames last : List (StreamChannel × Bytes)} {rest buf : Bytes}
    (h : ShownSoFar input session frames last rest buf) (hquiet : Quiet session after)
    (hreading : after.reading = session.reading) : ShownSoFar input after frames last rest buf where
  takes := h.takes
  stdout := hquiet.stdout.trans h.stdout
  stderr := hquiet.stderr.trans h.stderr
  reading hgoesOn := by
    obtain ⟨hlast, hinput, hpayload⟩ := h.reading (hreading.symm.trans hgoesOn)
    exact ⟨hlast, hquiet.input.trans hinput, hquiet.payload.trans hpayload⟩
  stopped hno := h.stopped (hreading.symm.trans hno)

theorem ShownSoFar.step {input : Bytes} {frames last : List (StreamChannel × Bytes)} {rest buf : Bytes} {event : SessionEvent}
    (h : ShownSoFar input session frames last rest buf) (hturn : session.step codec event = some after) :
    ∃ frames last rest buf, ShownSoFar input after frames last rest buf := by
  cases event with
  | frame shown =>
    unfold ShellSession.step at hturn
    simp only at hturn
    split at hturn
    · rename_i hreading
      exact h.readFrame hreading hturn
    · cases hturn
  | stdin chunk taken =>
    unfold ShellSession.step at hturn
    simp only at hturn
    split at hturn
    · obtain rfl := Option.some.inj hturn
      obtain ⟨sent, failure, isOpen, hafter, -⟩ := forward_cases session chunk taken
      rw [hafter]
      exact ⟨frames, last, rest, buf, h.congr ⟨rfl, rfl, rfl, rfl⟩ rfl⟩
    · cases hturn
  | receive =>
    unfold ShellSession.step ShellSession.receive at hturn
    simp only at hturn
    split at hturn
    · split at hturn
      · obtain rfl := Option.some.inj hturn
        exact ⟨frames, last, rest, buf, h.congr ⟨rfl, rfl, rfl, rfl⟩ rfl⟩
      · split at hturn
        · cases hturn
        · obtain rfl := Option.some.inj hturn
          exact ⟨frames, last, rest, buf, h.congr ⟨rfl, rfl, rfl, rfl⟩ rfl⟩
    · cases hturn

theorem ShownSoFar.run {input : Bytes} : ∀ {events : List SessionEvent} {session : ShellSession}
    {frames last : List (StreamChannel × Bytes)} {rest buf : Bytes}, ShownSoFar input session frames last rest buf →
      session.run codec events = some after → ∃ frames last rest buf, ShownSoFar input after frames last rest buf
  | [], _, frames, last, rest, buf, h, hrun => by
    obtain rfl := Option.some.inj hrun
    exact ⟨frames, last, rest, buf, h⟩
  | event :: events, _, _, _, _, _, h, hrun => by
    obtain ⟨middle, hstep, hrest⟩ := run_cons_iff.mp hrun
    obtain ⟨_, _, _, _, hmiddle⟩ := h.step hstep
    exact hmiddle.run hrest

/-- With room in the channel the task takes its turn, and what is left to read is less. -/
theorem exists_readFrame (hroom : session.messages.length < frameChannelCapacity) :
    ∃ after, session.readFrame .all = some after := by
  have hsend : ∀ rest payload message goesOn, ∃ after, (session.took rest payload).send message goesOn = some after := by
    intro rest payload message goesOn
    unfold send
    split
    · exact ⟨_, rfl⟩
    · exact ⟨_, if_pos hroom⟩
  have hshow : ∀ rest payload stream, ∃ after, (session.took rest payload).showPayload stream .all = some after := by
    intro rest payload stream
    unfold showPayload
    split
    · exact ⟨_, rfl⟩
    · split <;> exact ⟨_, rfl⟩
  unfold readFrame
  split
  · exact hsend _ _ _ _
  · split
    · split
      · exact hsend _ _ _ _
      · split
        · exact ⟨_, rfl⟩
        · exact hshow _ _ _
    · exact hsend _ _ _ _

/-- Turns of the task and the loop, without the local stdin. -/
def NoStdin (events : List SessionEvent) : Prop := ∀ event ∈ events, event = .frame .all ∨ event = .receive

theorem exists_end_of_message {message : Except Str Frame} {messages : List (Except Str Frame)}
    (hnone : session.status = none) (hmessages : session.messages = message :: messages) :
    ∃ events after, NoStdin events ∧ session.run codec events = some after ∧ after.status.isSome = true := by
  refine ⟨[.receive], { session with messages := messages, status := some (messageStatus codec message) }, by simp [NoStdin],
    run_cons_iff.mpr ⟨_, ?_, rfl⟩, rfl⟩
  unfold step receive
  rw [hnone, hmessages]
  rfl

/-- The task and the loop alone bring a session to its end; `n` bounds what is left to read. -/
theorem exists_settled {input : Bytes} : ∀ (n : ℕ) {session : ShellSession}, session.input.length < n →
    Follows codec input session → session.status = none →
      ∃ events after, NoStdin events ∧ session.run codec events = some after ∧ after.status.isSome = true
  | 0, _, hlen, _, _ => by omega
  | n + 1, session, hlen, hfollows, hnone => by
    obtain ⟨_, _, _, _, _, _, _, hstage⟩ := id hfollows
    rw [hnone] at hstage
    rcases hstage with ⟨hnil, hreading, -⟩ | ⟨message, messages, hmessages, -⟩
    · obtain ⟨after, hturn⟩ := @exists_readFrame session (by rw [hnil]; decide)
      obtain ⟨hgrew, hcases⟩ := readFrame_cases hturn
      have hstep : session.step codec (.frame .all) = some after := by rw [step, if_pos hreading, hturn]
      have hended : ∃ events last, NoStdin events ∧ after.run codec events = some last ∧ last.status.isSome = true := by
        rcases hcases hnone with ⟨frame, hframe⟩ | ⟨message, -, hmessage⟩ | ⟨hne, -⟩
        · obtain ⟨header, hread, -⟩ := hframe.accepted
          have hshort := readFrameInto_length hread
          unfold headerLen at hshort
          exact exists_settled n (by omega) (hfollows.step hstep) (hgrew.status.trans hnone)
        · rw [hnil] at hmessage
          exact exists_end_of_message (hgrew.status.trans hnone) hmessage
        · exact absurd hnil hne
      obtain ⟨events, last, hevents, hrun, hlast⟩ := hended
      exact ⟨.frame .all :: events, last, List.forall_mem_cons.mpr ⟨Or.inl rfl, hevents⟩,
        run_cons_iff.mpr ⟨after, hstep, hrun⟩, hlast⟩
    · exact exists_end_of_message hnone hmessages

/-! ### What has been sent -/

/-- The data that is typed. -/
def typed (events : List SessionEvent) : List Bytes :=
  events.filterMap fun
    | .stdin (some (.data data)) _ => some data
    | _ => none

/-- The local stdin has ended. -/
def closed (events : List SessionEvent) : Bool :=
  events.any fun
    | .stdin (some .eof) _ | .stdin none _ => true
    | _ => false

/-- The frames of the stdin: each chunk, and one eof frame when it has ended. -/
def stdinFrames (chunks : List Bytes) (closed : Bool) : List Frame :=
  chunks.map (mkFrame .stream (streamFlags .stdin false) clientRequestId) ++ if closed then chunkFrames none else []

/-- A status is returned behind output that has been shown. -/
theorem Follows.returned {input : Bytes} {status : ℤ} (h : Follows codec input session)
    (hstatus : session.status = some (.ok status)) :
    ∃ frames rest buf frame left, Accepts input [] frames rest buf ∧ Shown frames ∧
      readFrameInto rest buf = (.ok frame.header, left, frame.payload) ∧ frame.header.kind = .response ∧
      decodeJson codec.decodeResponse frame .response = .ok (.shellExit status) ∧
      outputOf .stdout frames <+: session.stdout ∧ outputOf .stderr frames <+: session.stderr := by
  obtain ⟨frames, rest, buf, haccepts, hshown, hstdout, hstderr, hstage⟩ := h
  rw [hstatus] at hstage
  obtain ⟨message, hhands, hmessage⟩ := hstage
  cases message with
  | error text => cases hmessage
  | ok frame =>
    obtain ⟨-, left, hread⟩ := hhands frame rfl
    have hframe : frameStatus codec frame = .ok status := hmessage
    unfold frameStatus at hframe
    split at hframe
    · rename_i hkind
      split at hframe
      · cases hframe
      · rename_i hdecode
        obtain rfl := Except.ok.inj hframe
        exact ⟨frames, rest, buf, frame, left, haccepts, hshown, hread, hkind, hdecode, hstdout, hstderr⟩
      · cases hframe
      · cases hframe
    · cases hframe

end ShellSession

open ShellSession

end Client

end Rsdb
