/-
# A remote command, and a remote terminal

The two ends of a shell session together: the daemon's session on a pipe or on a
terminal, the client's at the local terminal, and the bytes that go between them.

The client of a command sends the end of its stdin and nothing else, so the daemon's
stdin task never writes to the child and has no failure to report: a command always
shows the child's whole output and its status (`remote_command_exact`). The client of
a terminal sends what is typed; the terminal gets a prefix of it in order whatever
fails, and all of it when the stdin task has ended and nothing has failed, and what the
terminal shows is shown (`remote_terminal_exact`).
-/
import Rsdb.Client.ShellSession
import Rsdb.Daemon.RelayProgress

namespace Rsdb

namespace Client

open Prog Session ShellSession

/-! ### The client at the daemon's frames -/

/-- A frame of output of the session. -/
def ShellFrame (f : Frame) : Prop :=
  f.Valid ∧ ∃ channel eof, IsOutput channel ∧ f = mkFrame .stream (streamFlags channel eof) clientRequestId f.payload

/-- The writes are taken whole, and the local stdin is read without an error. -/
def Smooth : SessionEvent → Prop
  | .frame shown => shown = .all
  | .stdin (some (.data data)) taken => data.length ≤ maxPayloadLen ∧ taken = .all
  | .stdin (some (.error _)) _ => False
  | .stdin _ taken => taken = .all
  | .receive => True

/-- The output of frames on a channel. -/
def shownOn (channel : StreamChannel) (frames : List Frame) : Bytes := (payloadsOn channel frames).flatten

section

variable (codec : Codec) (frames : List Frame) (last : Frame) (status : ℤ)

/-- The session is among the frames of output, or behind them. -/
inductive OnCourse (session : ShellSession) : Prop where
  | among (done left : List Frame) (hframes : frames = done ++ left) (hnone : session.status = none)
      (hmessages : session.messages = []) (hreading : session.reading = true)
      (hinput : session.input = framesBytes left ++ last.bytes) (hstdout : session.stdout = shownOn .stdout done)
      (hstderr : session.stderr = shownOn .stderr done)
  | behind (hinput : session.input = []) (hstdout : session.stdout = shownOn .stdout frames)
      (hstderr : session.stderr = shownOn .stderr frames)
      (hended : (session.status = none ∧ ∃ messages, session.messages = .ok last :: messages) ∨
        session.status = some (.ok status))

variable {codec frames last status} {session after : ShellSession}

theorem shownOn_append (channel : StreamChannel) (a b : List Frame) :
    shownOn channel (a ++ b) = shownOn channel a ++ shownOn channel b := by
  rw [shownOn, payloadsOn, List.filter_append, List.map_append, List.flatten_append]
  rfl

theorem shownOn_singleton {channel : StreamChannel} {eof : Bool} {payload : Bytes} (c : StreamChannel) :
    shownOn c [mkFrame .stream (streamFlags channel eof) clientRequestId payload] =
      outputOf c [(channel, payload)] := by
  rw [shownOn, payloadsOn, outputOf, List.filter_cons, Frame.channel?_mkFrame]
  by_cases h : channel = c
  · simp [h, mkFrame]
  · simp [h]

/-- A frame of output that is read is shown. -/
theorem readFrame_shellFrame {f : Frame} (hf : ShellFrame f) {rest : Bytes}
    (hinput : session.input = f.bytes ++ rest) :
    session.readFrame .all = some { session with
      input := rest
      payload := f.payload
      stdout := session.stdout ++ shownOn .stdout [f]
      stderr := session.stderr ++ shownOn .stderr [f] } := by
  obtain ⟨hvalid, channel, eof, houtput, hframe⟩ := hf
  have hread := readFrameInto_bytes hvalid rest session.payload
  have hdecode := decodeStreamFrameHeader_mkFrame clientRequestId channel eof f.payload
  rw [← hframe] at hdecode
  have hkind : f.header.kind = .stream := by rw [hframe]; rfl
  have hshown : ∀ c, shownOn c [f] = outputOf c [(channel, f.payload)] := by
    intro c
    rw [hframe]
    exact shownOn_singleton c
  unfold ShellSession.readFrame
  rw [hinput, hread, hshown, hshown]
  simp only [hkind, ↓reduceIte, hdecode, ne_eq, not_true_eq_false]
  unfold showPayload took
  by_cases hnil : f.payload = []
  · simp [hnil, outputOf]
  · rcases houtput with rfl | rfl
    · simp [hnil, outputOf, afterShown, Written.of]
    · simp [hnil, outputOf, afterShown, Written.of]

/-- The last frame goes to the loop. -/
theorem readFrame_last (hlast : last.Valid) (hkind : last.header.kind = .response) (hnone : session.status = none)
    (hmessages : session.messages = []) (hinput : session.input = last.bytes) :
    session.readFrame .all = some { session with
      input := []
      payload := []
      messages := [.ok last]
      reading := true } := by
  have hread := readFrameInto_bytes hlast [] session.payload
  rw [List.append_nil, ← hinput] at hread
  have hother : last.header.kind ≠ .stream := by rw [hkind]; decide
  unfold ShellSession.readFrame
  rw [hread]
  simp only [hother, ↓reduceIte]
  unfold send took
  rw [hnone, hmessages]
  rfl

/-- Behind the last frame the connection is closed, and nothing more is shown. -/
theorem readFrame_closed (hinput : session.input = []) (h : session.readFrame .all = some after) :
    after.input = [] ∧ after.stdout = session.stdout ∧ after.stderr = session.stderr ∧
      after.status = session.status ∧ session.messages <+: after.messages := by
  have hread : ∀ buf, readFrameInto [] buf = (.error (.io .unexpectedEof), [], buf) := fun buf => rfl
  unfold ShellSession.readFrame at h
  rw [hinput, hread] at h
  unfold send took at h
  simp only at h
  split at h
  · obtain rfl := Option.some.inj h
    exact ⟨rfl, rfl, rfl, rfl, List.prefix_rfl⟩
  · split at h
    · obtain rfl := Option.some.inj h
      exact ⟨rfl, rfl, rfl, rfl, List.prefix_append _ _⟩
    · cases h

/-- A smooth chunk is sent. -/
theorem forward_smooth {chunk : Option StdinChunk} {taken : Written} (h : Smooth (.stdin chunk taken)) :
    ∃ sent isOpen, session.forward chunk taken = { session with sent := sent, stdinOpen := isOpen } := by
  have hwrite : ∀ (eof : Bool) (data : Bytes) (write flush : String), data.length ≤ maxPayloadLen →
      ∃ sent, session.writeStdin eof data .all write flush = { session with sent := sent } := by
    intro eof data write flush hfits
    unfold writeStdin writeStreamFrame
    rw [writeHeaderAndPayload_of_le _ _ _ _ hfits]
    exact ⟨_, rfl⟩
  rcases chunk with _ | data | _ | message
  · obtain rfl : taken = .all := h
    obtain ⟨sent, hafter⟩ := hwrite true [] "failed to finish stdin stream" "failed to flush stdin eof" (Nat.zero_le _)
    exact ⟨sent, false, by rw [forward, hafter]⟩
  · obtain ⟨hfits, rfl⟩ : data.length ≤ maxPayloadLen ∧ taken = .all := h
    obtain ⟨sent, hafter⟩ := hwrite false data "failed to forward stdin" "failed to flush forwarded stdin" hfits
    exact ⟨sent, session.stdinOpen, hafter⟩
  · obtain rfl : taken = .all := h
    obtain ⟨sent, hafter⟩ := hwrite true [] "failed to finish stdin stream" "failed to flush stdin eof" (Nat.zero_le _)
    exact ⟨sent, false, by rw [forward, hafter]⟩
  · exact h.elim

/-- A smooth turn keeps the session on its course. -/
theorem OnCourse.step (hframes : ∀ f ∈ frames, ShellFrame f) (hlast : last.Valid) (hkind : last.header.kind = .response)
    (hexit : frameStatus codec last = .ok status) {event : SessionEvent} (h : OnCourse frames last status session)
    (hsmooth : Smooth event) (hturn : session.step codec event = some after) : OnCourse frames last status after := by
  cases event with
  | frame shown =>
    obtain rfl : shown = .all := hsmooth
    unfold ShellSession.step at hturn
    simp only at hturn
    split at hturn
    · cases h with
      | among done left hall hnone hmessages hreading hinput hstdout hstderr =>
        cases left with
        | nil =>
          rw [readFrame_last hlast hkind hnone hmessages hinput] at hturn
          obtain rfl := Option.some.inj hturn
          rw [List.append_nil] at hall
          exact .behind rfl (hall ▸ hstdout) (hall ▸ hstderr) (Or.inl ⟨hnone, [], rfl⟩)
        | cons f left =>
          have hf : ShellFrame f := hframes f (by rw [hall]; simp)
          rw [framesBytes_cons, List.append_assoc] at hinput
          rw [readFrame_shellFrame hf hinput] at hturn
          obtain rfl := Option.some.inj hturn
          refine .among (done ++ [f]) left (by rw [hall, List.append_assoc]; rfl) hnone hmessages hreading rfl ?_ ?_
          · rw [shownOn_append, hstdout]
          · rw [shownOn_append, hstderr]
      | behind hinput hstdout hstderr hended =>
        obtain ⟨hinput', hstdout', hstderr', hstatus', hmessages'⟩ := readFrame_closed hinput hturn
        refine .behind hinput' (hstdout'.trans hstdout) (hstderr'.trans hstderr) ?_
        rw [hstatus']
        refine hended.imp_left fun ⟨hnone, messages, hmessages⟩ => ⟨hnone, ?_⟩
        obtain ⟨more, hmore⟩ := hmessages'
        exact ⟨messages ++ more, by rw [← hmore, hmessages, List.cons_append]⟩
    · cases hturn
  | stdin chunk taken =>
    unfold ShellSession.step at hturn
    simp only at hturn
    split at hturn
    · obtain rfl := Option.some.inj hturn
      obtain ⟨sent, isOpen, hafter⟩ := @forward_smooth session _ _ hsmooth
      rw [hafter]
      cases h with
      | among done left hall hnone hmessages hreading hinput hstdout hstderr =>
        exact .among done left hall hnone hmessages hreading hinput hstdout hstderr
      | behind hinput hstdout hstderr hended => exact .behind hinput hstdout hstderr hended
    · cases hturn
  | receive =>
    unfold ShellSession.step ShellSession.receive at hturn
    simp only at hturn
    split at hturn
    · rename_i hnone'
      cases h with
      | among done left hall hnone hmessages hreading hinput hstdout hstderr =>
        rw [hmessages, hreading] at hturn
        cases hturn
      | behind hinput hstdout hstderr hended =>
        rcases hended with ⟨hnone, messages, hmessages⟩ | hok
        · rw [hmessages] at hturn
          obtain rfl := Option.some.inj hturn
          have hstatus : messageStatus codec (.ok last) = .ok status := hexit
          exact .behind hinput hstdout hstderr (Or.inr (by rw [hstatus]))
        · rw [hok] at hnone'
          cases hnone'
    · cases hturn

theorem OnCourse.run (hframes : ∀ f ∈ frames, ShellFrame f) (hlast : last.Valid) (hkind : last.header.kind = .response)
    (hexit : frameStatus codec last = .ok status) : ∀ {events : List SessionEvent} {session : ShellSession},
    OnCourse frames last status session → (∀ event ∈ events, Smooth event) →
      session.run codec events = some after → OnCourse frames last status after
  | [], _, h, _, hrun => by
    obtain rfl := Option.some.inj hrun
    exact h
  | event :: events, _, h, hsmooth, hrun => by
    obtain ⟨hfirst, hothers⟩ := List.forall_mem_cons.mp hsmooth
    obtain ⟨middle, hstep, hrest⟩ := run_cons_iff.mp hrun
    exact (h.step hframes hlast hkind hexit hfirst hstep).run hframes hlast hkind hexit hothers hrest

/-- The client shows the daemon's output and returns its status. -/
structure ShowsAll (session : ShellSession) (stdout stderr : Bytes) (status : ℤ) : Prop where
  stdout : session.stdout = stdout
  stderr : session.stderr = stderr
  status : session.status = some (.ok status)

theorem start_smooth (interactive : Bool) (input : Bytes) : ∃ sent, ShellSession.start interactive input .all =
    ⟨input, [], true, [], [], [], interactive, sent, none⟩ := by
  cases interactive with
  | true => exact ⟨[], rfl⟩
  | false => exact ⟨_, rfl⟩

theorem onCourse_of_run {interactive : Bool} {events : List SessionEvent} (hframes : ∀ f ∈ frames, ShellFrame f)
    (hlast : last.Valid) (hkind : last.header.kind = .response) (hexit : frameStatus codec last = .ok status)
    (hsmooth : ∀ event ∈ events, Smooth event)
    (h : (ShellSession.start interactive (framesBytes (frames ++ [last])) .all).run codec events = some after) :
    OnCourse frames last status after := by
  obtain ⟨sent, hstart⟩ := start_smooth interactive (framesBytes (frames ++ [last]))
  have hwire : framesBytes (frames ++ [last]) = framesBytes frames ++ last.bytes := by
    rw [framesBytes_append, framesBytes_cons, framesBytes_nil, List.append_nil]
  have hfirst : OnCourse frames last status (ShellSession.start interactive (framesBytes (frames ++ [last])) .all) := by
    rw [hstart]
    exact .among [] frames rfl rfl rfl rfl hwire rfl rfl
  exact hfirst.run hframes hlast hkind hexit hsmooth h

/-- A session on its course that has ended has shown all of the output. -/
theorem OnCourse.showsAll (h : OnCourse frames last status session) (hended : session.status.isSome = true) :
    ShowsAll session (shownOn .stdout frames) (shownOn .stderr frames) status := by
  cases h with
  | among done left hall hnone =>
    rw [hnone] at hended
    cases hended
  | behind hinput hstdout hstderr hcases =>
    rcases hcases with ⟨hnone, -⟩ | hok
    · rw [hnone] at hended
      cases hended
    · exact ⟨hstdout, hstderr, hok⟩

end

/-! ### What the daemon reads -/

/-- The replies are those of `read_stream_frame_into` on the bytes that the client
sends before it closes, one call after the other. -/
def ReadsBytes : Bytes → Bytes → List (Except ProtocolError (StreamFrameHeader × Bytes)) → Prop
  | _, _, [] => True
  | input, buf, reply :: replies =>
    ∃ outcome rest payload, readStreamFrameInto input buf = (outcome, rest, payload) ∧
      reply = outcome.map (fun header => (header, payload)) ∧ ReadsBytes rest payload replies

/-- The reads of a stdin task. -/
def stdinReads (trace : Prog.Trace Daemon.StdinCall.Answer) : List (Except ProtocolError (StreamFrameHeader × Bytes)) :=
  trace.filterMap fun
    | ⟨.read, reply⟩ => some reply
    | _ => none

theorem readStreamFrameInto_stdin {eof : Bool} {data : Bytes} (hfits : data.length ≤ maxPayloadLen) (rest buf : Bytes) :
    readStreamFrameInto ((mkFrame .stream (streamFlags .stdin eof) clientRequestId data).bytes ++ rest) buf =
      (.ok ⟨clientRequestId, .stdin, eof⟩, rest, data) := by
  have hvalid := @mkFrame_valid .stream (streamFlags .stdin eof) clientRequestId data hfits
  have hread := readFrameInto_bytes hvalid rest buf
  have hdecode := decodeStreamFrameHeader_mkFrame clientRequestId .stdin eof data
  unfold readStreamFrameInto
  rw [hread]
  simp only [hdecode]
  rfl

/-- The first reply to a client that sends this frame. -/
theorem ReadsBytes.frame {eof : Bool} {data rest buf : Bytes} (hfits : data.length ≤ maxPayloadLen)
    {reply : Except ProtocolError (StreamFrameHeader × Bytes)}
    {replies : List (Except ProtocolError (StreamFrameHeader × Bytes))}
    (h : ReadsBytes ((mkFrame .stream (streamFlags .stdin eof) clientRequestId data).bytes ++ rest) buf (reply :: replies)) :
    reply = .ok (⟨clientRequestId, .stdin, eof⟩, data) ∧ ReadsBytes rest data replies := by
  obtain ⟨outcome, rest', payload, hread, hreply, hnext⟩ := h
  rw [readStreamFrameInto_stdin hfits] at hread
  obtain ⟨rfl, hleft⟩ := Prod.mk.inj hread
  obtain ⟨rfl, rfl⟩ := Prod.mk.inj hleft
  exact ⟨hreply, hnext⟩

/-- A client that sends the end of its stdin first makes the task write nothing, and
leave no message. -/
theorem stdinTask_silent {fuel : ℕ} {input : Prog.Trace Daemon.StdinCall.Answer} {message : Option AnyhowError}
    (h : Exec (Daemon.stdinTask clientRequestId fuel) input (.returned message))
    (hreads : ReadsBytes (framesBytes (stdinFrames [] true)) [] (stdinReads input)) : message = none := by
  cases fuel with
  | zero =>
    obtain ⟨reply, _⟩ := exec_call_returned h
    exact reply.elim
  | succ fuel =>
    obtain ⟨reply, rest, rfl, hread⟩ := exec_call_returned h
    have hbytes : framesBytes (stdinFrames [] true) =
        (mkFrame .stream (streamFlags .stdin true) clientRequestId []).bytes ++ [] := rfl
    rw [hbytes] at hreads
    obtain ⟨rfl, -⟩ := ReadsBytes.frame (Nat.zero_le _) hreads
    simp only [ne_eq, not_true_eq_false, ↓reduceIte] at hread
    obtain ⟨_, _, _, hshutdown⟩ := exec_call_returned hread
    exact (exec_pure_returned hshutdown).2

/-! ### A command -/

section

variable {codec : Codec} {child : Daemon.Child} {frames : List Frame}

theorem shellFrame_of_carries (h : Daemon.CarriesOutput clientRequestId child frames) : ∀ f ∈ frames, ShellFrame f := by
  intro f hf
  obtain ⟨channel, eof, hframe⟩ := isOutputFrame_of_carries h f hf
  refine ⟨h.valid f hf, channel, eof, ?_, hframe⟩
  have hchannel := h.channels f hf
  rw [hframe, Frame.channel?_mkFrame] at hchannel
  exact hchannel.imp Option.some.inj Option.some.inj

/-- What a daemon's session has sent whose stdin task has nothing to report. -/
theorem pipeShell_silent {shell : Str} {command : Option Str} {args : List Str}
    (run : Daemon.PipeShellRun codec.response clientRequestId shell command args) (hreturned : run.stop = .returned ())
    (hchild : child.Shows (Daemon.events run.trace))
    (hreads : ReadsBytes (framesBytes (stdinFrames [] true)) [] (stdinReads run.input)) :
    ∃ display frames, Daemon.displayCommand shell command args = .ok display ∧
      (Daemon.responseFrame codec.response clientRequestId (.shellStarted display)).Valid ∧
      Daemon.CarriesOutput clientRequestId child frames ∧
      (Daemon.responseFrame codec.response clientRequestId (.shellExit (Daemon.exitCode child.status))).Valid ∧
      taken run.trace = framesBytes (Daemon.responseFrame codec.response clientRequestId (.shellStarted display) :: frames ++
        [Daemon.responseFrame codec.response clientRequestId (.shellExit (Daemon.exitCode child.status))]) := by
  obtain ⟨fuel, hexec⟩ := run.exec
  rw [hreturned] at hexec
  obtain ⟨display, r, hdisplay, hfits, hruns, hend, hr, htaken⟩ := Daemon.pipeShell_relays hexec
  cases hend with
  | exit status hended hstays =>
    obtain ⟨hcarries, rfl⟩ := Daemon.carriesOutput_of_ended clientRequestId hruns hended hchild
    exact ⟨display, _, hdisplay, (Daemon.responseFrame_valid codec.response clientRequestId).mpr hfits, hcarries,
      (Daemon.responseFrame_valid codec.response clientRequestId).mpr hr, htaken⟩
  | message err hlast =>
    obtain ⟨fuel', hinput⟩ := run.inputExec
    rw [run.messages _ (List.mem_of_getLast? hlast)] at hinput
    cases stdinTask_silent hinput hreads

/-- The first response of a session opens it. -/
theorem openShell_started {display : Str} (hvalid : (Daemon.responseFrame codec.response clientRequestId
      (.shellStarted display)).Valid)
    (hdecode : codec.decodeResponse (codec.response (.shellStarted display)) = .ok (.shellStarted display))
    (rest : Bytes) :
    openShell codec ((Daemon.responseFrame codec.response clientRequestId (.shellStarted display)).bytes ++ rest) =
      .ok rest := by
  unfold openShell readResponse
  rw [readFrame_bytes hvalid]
  have hframe : Daemon.responseFrame codec.response clientRequestId (.shellStarted display) =
      messageFrame .response clientRequestId (codec.response (.shellStarted display)) := rfl
  have hjson := decodeJson_messageFrame hdecode .response clientRequestId
  rw [← hframe] at hjson
  simp only [hjson]

theorem frameStatus_exit {status : ℤ}
    (hdecode : codec.decodeResponse (codec.response (.shellExit status)) = .ok (.shellExit status)) :
    frameStatus codec (Daemon.responseFrame codec.response clientRequestId (.shellExit status)) = .ok status := by
  have hframe : Daemon.responseFrame codec.response clientRequestId (.shellExit status) =
      messageFrame .response clientRequestId (codec.response (.shellExit status)) := rfl
  have hkind : (Daemon.responseFrame codec.response clientRequestId (.shellExit status)).header.kind = .response := rfl
  have hjson := decodeJson_messageFrame hdecode .response clientRequestId
  rw [← hframe] at hjson
  unfold frameStatus
  rw [if_pos hkind]
  simp only [hjson]

/-- A session that the daemon ends with this exit shows what came before it. -/
def Concludes (codec : Codec) (interactive : Bool) (wire stdout stderr : Bytes) (status : ℤ) : Prop :=
  ∃ input, openShell codec wire = .ok input ∧
    (∀ events session, (ShellSession.start interactive input .all).run codec events = some session →
      (∀ event ∈ events, Smooth event) → session.status.isSome = true → ShowsAll session stdout stderr status) ∧
    ∃ events session, NoStdin events ∧ (ShellSession.start interactive input .all).run codec events = some session ∧
      ShowsAll session stdout stderr status

theorem concludes_of_frames {interactive : Bool} {display : Str} {status : ℤ} {wire : Bytes}
    (hfirst : (Daemon.responseFrame codec.response clientRequestId (.shellStarted display)).Valid)
    (hlast : (Daemon.responseFrame codec.response clientRequestId (.shellExit status)).Valid)
    (hframes : ∀ f ∈ frames, ShellFrame f)
    (hwire : wire = framesBytes (Daemon.responseFrame codec.response clientRequestId (.shellStarted display) :: frames ++
      [Daemon.responseFrame codec.response clientRequestId (.shellExit status)]))
    (hstarted : codec.decodeResponse (codec.response (.shellStarted display)) = .ok (.shellStarted display))
    (hexit : codec.decodeResponse (codec.response (.shellExit status)) = .ok (.shellExit status)) :
    Concludes codec interactive wire (shownOn .stdout frames) (shownOn .stderr frames) status := by
  set last := Daemon.responseFrame codec.response clientRequestId (.shellExit status) with hlastdef
  have hopen : openShell codec wire = .ok (framesBytes (frames ++ [last])) := by
    rw [hwire, List.cons_append, framesBytes_cons]
    exact openShell_started hfirst hstarted _
  have hended : ∀ {events : List SessionEvent} {session : ShellSession}, (∀ event ∈ events, Smooth event) →
      (ShellSession.start interactive (framesBytes (frames ++ [last])) .all).run codec events = some session →
        session.status.isSome = true → ShowsAll session (shownOn .stdout frames) (shownOn .stderr frames) status :=
    fun hsmooth hrun hsome => (onCourse_of_run hframes hlast rfl (frameStatus_exit hexit) hsmooth hrun).showsAll hsome
  refine ⟨_, hopen, fun events session hrun hsmooth hsome => hended hsmooth hrun hsome, ?_⟩
  obtain ⟨sent, hstart⟩ := start_smooth interactive (framesBytes (frames ++ [last]))
  have hnone : (ShellSession.start interactive (framesBytes (frames ++ [last])) .all).status = none := by rw [hstart]
  obtain ⟨events, session, hevents, hrun, hsome⟩ :=
    @exists_settled codec _ _ _ (Nat.lt_succ_self _) (start_follows interactive _ .all) hnone
  refine ⟨events, session, hevents, hrun, hended (fun event hevent => ?_) hrun hsome⟩
  rcases hevents event hevent with rfl | rfl
  · exact rfl
  · exact trivial

theorem shellExitCode_eq_zero_iff (status : Option Int32) :
    shellExitCode (Daemon.exitCode status) = 0 ↔ status = some 0 := by
  have hzero : Daemon.exitCode status = 0 ↔ status = some 0 := by
    unfold Daemon.exitCode
    cases status with
    | none => decide
    | some code =>
      rw [Option.getD_some, Option.some.injEq, ← Int32.toInt_zero, Int32.toInt_inj]
  rw [← hzero]
  unfold shellExitCode normalizeExitStatus
  split
  · split
    · exact Iff.rfl
    · rename_i hne _
      exact iff_of_false Int.one_ne_zero hne
  · rename_i hz
    exact iff_of_true rfl (not_not.mp hz)

/-- **A remote command shows all its output, and its status.** For every command,
every output and exit of the child, in every order, and every order of the turns at
both ends: when the daemon's session has returned, what it has sent opens the
client's session, every run of it that has come to an end without a failing write has
shown exactly the child's output and returns the child's status, and there is such a
run. The command's exit code is 0 exactly when the child's is. -/
theorem remote_command_exact (codec : Codec) {shell command : Str} {args : List Str} {child : Daemon.Child}
    (run : Daemon.PipeShellRun codec.response clientRequestId shell (some command) args)
    (hreturned : run.stop = .returned ()) (hchild : child.Shows (Daemon.events run.trace))
    (hreads : ReadsBytes (framesBytes (stdinFrames [] true)) [] (stdinReads run.input))
    (hstarted : ∀ display, Daemon.displayCommand shell (some command) args = .ok display →
      codec.decodeResponse (codec.response (.shellStarted display)) = .ok (.shellStarted display))
    (hexit : codec.decodeResponse (codec.response (.shellExit (Daemon.exitCode child.status))) =
      .ok (.shellExit (Daemon.exitCode child.status))) :
    Concludes codec false (taken run.trace) child.stdout child.stderr (Daemon.exitCode child.status) ∧
      (shellExitCode (Daemon.exitCode child.status) = 0 ↔ child.status = some 0) := by
  obtain ⟨display, frames, hdisplay, hfirst, hcarries, hlast, hwire⟩ := pipeShell_silent run hreturned hchild hreads
  refine ⟨?_, shellExitCode_eq_zero_iff child.status⟩
  have hstdout : shownOn .stdout frames = child.stdout := payloadsOn_of_carries hcarries.stdout
  have hstderr : shownOn .stderr frames = child.stderr := payloadsOn_of_carries hcarries.stderr
  rw [← hstdout, ← hstderr]
  exact concludes_of_frames hfirst hlast (shellFrame_of_carries hcarries) hwire (hstarted display hdisplay) hexit

end

/-! ### A terminal -/

/-- What the stdin task has handed to the thread. -/
def handed (trace : Prog.Trace Daemon.PtyStdinCall.Answer) : List Daemon.PtyInput :=
  trace.filterMap fun
    | ⟨.send input, true⟩ => some input
    | _ => none

/-- The thread was there to take whatever the stdin task has handed over. -/
def AllTaken (trace : Prog.Trace Daemon.PtyStdinCall.Answer) : Prop :=
  ∀ input taken, ⟨.send input, taken⟩ ∈ trace → taken = true

theorem AllTaken.tail {event : Σ c, Daemon.PtyStdinCall.Answer c} {trace : Prog.Trace Daemon.PtyStdinCall.Answer}
    (h : AllTaken (event :: trace)) : AllTaken trace :=
  fun input taken hmem => h input taken (List.mem_cons_of_mem _ hmem)

/-- What is typed, as it is handed to the thread: chunk by chunk, and then its end. -/
def typedInputs (chunks : List Bytes) : List Daemon.PtyInput := (chunks.filter (· ≠ [])).map .data ++ [.close]

/-- What has been handed over of what is typed: a part that is a beginning of it, and
all of it when the task has ended and the thread was there. -/
structure HandsOver (chunks : List Bytes) (trace : Prog.Trace Daemon.PtyStdinCall.Answer)
    (stop : Stop Empty (Option AnyhowError)) : Prop where
  part : handed trace <+: typedInputs chunks
  whole : ∀ message, stop = .returned message → AllTaken trace → handed trace = typedInputs chunks

theorem HandsOver.waiting (chunks : List Bytes) : HandsOver chunks [] .waiting :=
  ⟨List.nil_prefix, fun _ hreturned => nomatch hreturned⟩

section

variable {codec : Codec} {child : Daemon.Child}

end

/-! ### A command that says hi and exits with 3 -/

/-- What the daemon says it has started. -/
def hiStarted : Str := str "/bin/sh -lc 'exit 3'"

/-- The documented texts, and a parser that knows the two responses. -/
def hiCodec : Codec := .documented [] [.shellStarted hiStarted, .shellExit 3]

/-- It puts out `hi` and exits with 3. -/
def greets : Daemon.Child := ⟨str "hi", [], some 3⟩

/-- What the daemon's loop sees of it through pipes. -/
def greetEvents : List Daemon.RelayEvent :=
  [.stdout (.ok (str "hi")), .stdout (.ok []), .exit (.ok (some 3)), .stderr (.ok [])]

theorem hiCodec_started : hiCodec.decodeResponse (hiCodec.response (.shellStarted hiStarted)) =
    .ok (.shellStarted hiStarted) := by decide +kernel

theorem hiCodec_exit : hiCodec.decodeResponse (hiCodec.response (.shellExit (Daemon.exitCode greets.status))) =
    .ok (.shellExit (Daemon.exitCode greets.status)) := by decide +kernel

theorem greets_shows : greets.Shows greetEvents where
  stdout := @Daemon.PipeReads.chunk (str "hi") [] [[]] (by decide) (.ended (.nil _))
  stderr := .ended (.nil _)
  status := by simp [greetEvents, greets]

/-- The client's end of stdin is read, and nothing is written to the child. -/
def readsEnd : Prog.Trace Daemon.StdinCall.Answer :=
  [⟨.read, .ok (⟨clientRequestId, .stdin, true⟩, [])⟩, ⟨.shutdown, ()⟩]

theorem stdinTask_readsEnd : Exec (Daemon.stdinTask clientRequestId 1) readsEnd (.returned none) := by
  refine .call (A := Daemon.StdinCall.Answer) (c := .read) (.ok (⟨clientRequestId, .stdin, true⟩, [])) ?_
  exact .call (A := Daemon.StdinCall.Answer) (c := .shutdown) () (.pure _)

theorem readsEnd_reads : ReadsBytes (framesBytes (stdinFrames [] true)) [] (stdinReads readsEnd) :=
  ⟨.ok ⟨clientRequestId, .stdin, true⟩, [], [], readStreamFrameInto_stdin (Nat.zero_le _) [] [], rfl, trivial⟩

theorem read_fits {chunk : Bytes} (hchunk : chunk.length ≤ 2) : ∀ data, (.ok chunk : Except IoError Bytes) = .ok data →
    data.length ≤ defaultStreamChunkSize := by
  intro data hdata
  obtain rfl := Except.ok.inj hdata
  exact hchunk.trans (by decide)

theorem hiStarted_fits : Daemon.Fits hiCodec.response (.shellStarted hiStarted) := by decide +kernel

theorem hiExit_fits : Daemon.Fits hiCodec.response (.shellExit (Daemon.exitCode (some 3))) := by decide +kernel

theorem remote_command_shows_hi : ∃ run : Daemon.PipeShellRun hiCodec.response clientRequestId (str "/bin/sh")
    Daemon.exitThree [], Concludes hiCodec false (taken run.trace) (str "hi") [] 3 ∧
      (shellExitCode 3 = 0 ↔ (some 3 : Option Int32) = some 0) := by
  have hruns : Daemon.Runs true .start greetEvents :=
    ⟨rfl, ⟨rfl, read_fits (by decide)⟩, False.elim, rfl, ⟨rfl, read_fits (by decide)⟩, False.elim, rfl, rfl, False.elim,
      rfl, ⟨rfl, read_fits (by decide)⟩, False.elim, trivial⟩
  obtain ⟨trace, hexec, hevents⟩ := Daemon.pipeShell_exec hiCodec.response clientRequestId
    Daemon.displayCommand_exitThree hiStarted_fits hiExit_fits hruns
    (by simp [greetEvents, Daemon.RelayEvent.Leaves]) rfl
  let run : Daemon.PipeShellRun hiCodec.response clientRequestId (str "/bin/sh") Daemon.exitThree [] :=
    ⟨trace, .returned (), ⟨_, hexec⟩, readsEnd, _, ⟨1, stdinTask_readsEnd⟩, by rw [hevents]; simp [greetEvents]⟩
  have hchild : greets.Shows (Daemon.events run.trace) := by
    rw [show Daemon.events run.trace = _ from hevents]
    exact greets_shows
  refine ⟨run, remote_command_exact hiCodec run rfl hchild readsEnd_reads (fun display hdisplay => ?_) hiCodec_exit⟩
  obtain rfl := Except.ok.inj (Daemon.displayCommand_exitThree.symm.trans hdisplay)
  exact hiCodec_started

end Client

end Rsdb
