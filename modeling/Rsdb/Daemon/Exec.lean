/-
# Streamed exec

`stream_command_output` relays a child's output (`relayLoop`) and then sends an
`ExecResult`, all inside one future that a timeout cancels: the future is dropped
where it waits, with what its buffered writer holds back, and an `Error` goes to
the raw connection.

A run that is left alone relays everything (`exec_stream_relays`). A run that is
cancelled leaves on the wire whatever the socket had taken, and the `Error` frame
follows in the middle of another frame unless that was a whole number of frames
(`exec_keeps_framing_iff`).
-/
import Rsdb.Daemon.Relay
import Rsdb.Daemon.Service

namespace Rsdb

namespace Daemon

open Prog Session

/-- In seconds. -/
def execTimeout (timeoutSecs : Option ℕ) (defaultTimeout : ℕ) : ℕ := timeoutSecs.getD defaultTimeout

/-- The answer to a command that ran too long. -/
def timeoutResponse (secs : ℕ) : ControlResponse :=
  .error .execTimeout (str "command timed out after " ++ decimal secs ++ str " seconds")

/-- The answer to a streamed command that has ended; its output is sent already. -/
def resultResponse (status : Option Int32) : ControlResponse := .execResult (exitCode status) [] [] false

section

variable (json : ControlResponse → Bytes) (requestId : UInt32)

/-- What the daemon says when it cannot wait for the command. -/
def execFailures : RelayFailures :=
  ⟨.ofIo, fun err => (AnyhowError.ofIo err).context (str "failed to wait for exec process")⟩

/-- The future, with what the spawn gives. The check of the command makes no
call, so it may as well stand inside. -/
def execSession (command : Str) (spawned : Except IoError Unit) (fuel : ℕ) : RelaySession Unit :=
  if isBlank command then .fail (.bail (str "command must not be empty"))
  else
    match spawned with
    | .error err => .fail ((AnyhowError.ofIo err).context (str "failed to execute command: " ++ command))
    | .ok () =>
      relayLoop requestId false execFailures fuel .start [] >>= fun r =>
        match r.1 with
        -- nothing reports to this loop
        | .error err => .fail err
        | .ok status => sendResponse json requestId (resultResponse status) r.2

/-- `stream_command_output`, by what the socket has taken and where the future
has stopped: one that still waits is cancelled. -/
def streamCommandOutput (state : ServerState) (timeoutSecs : Option ℕ) (trace : Session.Trace RelayCall.Answer)
    (stop : Stop AnyhowError Unit) : Except AnyhowError Unit × Bytes :=
  match stop with
  | .returned () => (.ok (), taken trace)
  | .failed err => (.error err, taken trace)
  | .waiting =>
    writeJsonFrame (taken trace) .response requestId
      (json (timeoutResponse (execTimeout timeoutSecs state.execTimeoutSecs)))

/-! ### What the future has done where it stops -/

/-- The result of the child, if it was about to be sent. -/
def ResultFrames (frames : List Frame) : Prop :=
  frames = [] ∨ ∃ status, frames = [responseFrame json requestId (resultResponse status)] ∧ Fits json (resultResponse status)

/-- What the future has done. -/
def ExecRelays (trace : Session.Trace RelayCall.Answer) : Stop AnyhowError Unit → Prop
  | .waiting => ∃ result, ResultFrames json requestId result ∧
      taken trace <+: framesBytes (eventsFrames requestId trace ++ result)
  | .failed _ => True
  | .returned () => ∃ status, Fits json (resultResponse status) ∧
      (events trace).foldl Relay.after .start = ⟨false, false, some status⟩ ∧
      taken trace = framesBytes (eventsFrames requestId trace ++ [responseFrame json requestId (resultResponse status)])

theorem execSession_relays (command : Str) (spawned : Except IoError Unit) (fuel : ℕ) :
    Always (fun trace stop => Runs false .start (events trace) ∧ ExecRelays json requestId trace stop)
      (execSession json requestId command spawned fuel) := by
  unfold execSession
  split
  · exact always_fail ⟨trivial, trivial⟩
  cases spawned with
  | error err => exact always_fail ⟨trivial, trivial⟩
  | ok u =>
    refine always_bind (relayLoop_relays requestId fuel .start) ?_ (fun _ _ h => ⟨h.1, trivial⟩) ?_
    · rintro trace ⟨hruns, htaken⟩
      exact ⟨hruns, [], Or.inl rfl, by rwa [List.append_nil]⟩
    · rintro first ⟨result, buf⟩ ⟨hruns, htaken, rfl, hresult⟩
      cases result with
      | error err => exact always_fail ⟨by rwa [List.append_nil], trivial⟩
      | ok status =>
        by_cases hfits : Fits json (resultResponse status)
        · refine (sendResponse_of_fits json requestId hfits).mono fun rest stop hsends => ?_
          have hevents : ∀ {rest : Session.Trace RelayCall.Answer}, asked rest = [] →
              events (first ++ rest) = events first := fun h => by
            rw [events_append, events_of_asked h, List.append_nil]
          match stop, hsends with
          | .waiting, ⟨hasked, hbegins⟩ =>
            refine ⟨by rwa [hevents hasked], [responseFrame json requestId (resultResponse status)],
              Or.inr ⟨status, rfl, hfits⟩, ?_⟩
            rw [eventsFrames, hevents hasked, taken_append, htaken, framesBytes_append]
            refine (List.prefix_append_right_inj _).mpr ?_
            simpa [framesBytes_cons] using hbegins
          | .returned (), ⟨hasked, hall⟩ =>
            refine ⟨by rwa [hevents hasked], status, hfits, by rw [hevents hasked]; exact hresult.1, ?_⟩
            rw [eventsFrames, hevents hasked, taken_append, htaken, framesBytes_append, hall]
            simp [framesBytes_cons]
        · show Always _ (sendResponse json requestId (resultResponse status) [])
          rw [sendResponse_of_not_fits json requestId hfits]
          exact always_fail ⟨by rwa [List.append_nil], trivial⟩

/-! ### A run that is left alone -/

/-- A response that ends a streamed exec. -/
def EndsExec : ControlResponse → Prop
  | .execResult .. | .error .execTimeout _ => True
  | _ => False

theorem endsExec_result (status : Option Int32) : EndsExec (resultResponse status) := trivial

theorem endsExec_timeout (secs : ℕ) : EndsExec (timeoutResponse secs) := trivial

/-- The wire holds whole frames only, and exactly one of these responses, in the
last one. -/
def Ended (ends : ControlResponse → Prop) (wire : Bytes) : Prop :=
  ∃ (before : List Frame) (terminal : ControlResponse),
    let last := responseFrame json requestId terminal
    ends terminal ∧ (∀ f ∈ before ++ [last], f.Valid) ∧
      (∀ f ∈ before, ∀ response, ends response → f ≠ responseFrame json requestId response) ∧
      wire = framesBytes (before ++ [last])

/-- The wire holds whole frames only, and exactly one response that ends the
exec, in the last one. -/
def ExecFramed (wire : Bytes) : Prop := Ended json requestId EndsExec wire

/-- What the socket has taken is a whole number of frames of the child's output. -/
def AtBoundary (trace : Session.Trace RelayCall.Answer) : Prop :=
  ∃ n, (taken trace).length = (framesBytes ((eventsFrames requestId trace).take n)).length

/-- The last zero byte of a wire that ends in a response is in its header. -/
theorem responseFrame_cancel {r r' : ControlResponse} (hr : 0 ∉ json r) (hr' : 0 ∉ json r') {a b : Bytes}
    (h : a ++ (responseFrame json requestId r).bytes = b ++ (responseFrame json requestId r').bytes) :
    a = b ∧ json r = json r' := by
  have hsplit : ∀ r (a : Bytes), a ++ (responseFrame json requestId r).bytes =
      (a ++ (frameHeader .response 0 requestId (json r)).encode.1.take 23) ++ 0 :: json r := fun r a => by
    rw [responseFrame, mkFrame, Frame.bytes, List.append_assoc]
    rfl
  rw [hsplit, hsplit] at h
  obtain ⟨hleft, hjson⟩ := append_cons_inj_of_last hr hr' h
  exact ⟨(List.append_inj' hleft rfl).1, hjson⟩

variable {json requestId}

theorem not_response_of_event {events : List RelayEvent} {f : Frame} (hf : f ∈ events.flatMap (eventFrames requestId))
    (response : ControlResponse) : f ≠ responseFrame json requestId response := by
  rintro rfl
  obtain ⟨event, _, hf⟩ := List.mem_flatMap.mp hf
  rcases eventFrames_channel requestId event _ hf with h | h <;> cases h

variable {ends : ControlResponse → Prop}

/-- Whole frames, then the response. -/
theorem ended_of_frames {fs : List Frame} {response : ControlResponse} (hends : ends response)
    (hfits : Fits json response) (hvalid : ∀ f ∈ fs, f.Valid)
    (hnone : ∀ f ∈ fs, ∀ r, ends r → f ≠ responseFrame json requestId r) :
    Ended json requestId ends (framesBytes (fs ++ [responseFrame json requestId response])) := by
  refine ⟨fs, response, hends, List.forall_mem_append.mpr ⟨hvalid, ?_⟩, hnone, rfl⟩
  exact List.forall_mem_singleton.mpr ((responseFrame_valid json requestId).mpr hfits)

/-- What the socket had taken before the last response was whole frames, none of
which ended the exec. -/
theorem boundary_of_ended {fs result : List Frame} {wire : Bytes} {response : ControlResponse}
    (hjson : ∀ r, ends r → 0 ∉ json r) (hstatus : ∀ status, ends (resultResponse status)) (hends : ends response)
    (hvalid : ∀ f ∈ fs ++ result, f.Valid) (hresult : ResultFrames json requestId result)
    (hbegins : wire <+: framesBytes (fs ++ result))
    (h : Ended json requestId ends (wire ++ (responseFrame json requestId response).bytes)) :
    ∃ n, wire.length = (framesBytes (fs.take n)).length := by
  obtain ⟨before, terminal, hterminal, hwhole, hnone, hwire⟩ := h
  obtain ⟨hbefore, _⟩ := List.forall_mem_append.mp hwhole
  rw [framesBytes_append, framesBytes_cons, framesBytes_nil, List.append_nil] at hwire
  obtain ⟨rfl, _⟩ := responseFrame_cancel json requestId (hjson _ hends) (hjson _ hterminal) hwire
  obtain ⟨rest, hrest⟩ := hbegins
  obtain ⟨more, hmore, rfl⟩ := framesBytes_cancel hbefore hvalid hrest
  -- the frames taken are some of `fs`: all of `fs` and the result is too many
  have hle : before.length ≤ fs.length := by
    rcases hresult with rfl | ⟨status, rfl, _⟩
    · have hlen := congrArg List.length hmore
      rw [List.append_nil, List.length_append] at hlen
      omega
    · by_contra hlong
      have hlen := congrArg List.length hmore
      rw [List.length_append, List.length_append, List.length_singleton] at hlen
      obtain rfl : more = [] := List.eq_nil_of_length_eq_zero (by omega)
      rw [List.append_nil] at hmore
      refine hnone (responseFrame json requestId (resultResponse status)) ?_ _ (hstatus status) rfl
      rw [← hmore]
      exact List.mem_append_right _ List.mem_cons_self
  refine ⟨before.length, congrArg (fun l => (framesBytes l).length) ?_⟩
  have htake : (fs ++ result).take before.length = fs.take before.length := List.take_append_of_le_length hle
  rw [← htake, hmore, List.take_left]

/-- Which runs leave the wire framed. -/
theorem execEnded_iff {state : ServerState} {command : Str} {timeoutSecs : Option ℕ}
    {spawned : Except IoError Unit} {fuel : ℕ} {trace : Session.Trace RelayCall.Answer} {stop : Stop AnyhowError Unit}
    (hjson : ∀ r, ends r → 0 ∉ json r) (hstatus : ∀ status, ends (resultResponse status))
    (htimeout : ∀ secs, ends (timeoutResponse secs))
    (hfits : Fits json (timeoutResponse (execTimeout timeoutSecs state.execTimeoutSecs)))
    (hexec : Exec (execSession json requestId command spawned fuel) trace stop) (hok : ∀ err, stop ≠ .failed err) :
    Ended json requestId ends (streamCommandOutput json requestId state timeoutSecs trace stop).2 ↔
      (stop = .waiting → AtBoundary requestId trace) := by
  obtain ⟨hruns, hrelays⟩ := execSession_relays json requestId command spawned fuel _ _ hexec
  have hvalid : ∀ f ∈ eventsFrames requestId trace, f.Valid := hruns.valid requestId
  have hevents : ∀ f ∈ eventsFrames requestId trace, ∀ response, f ≠ responseFrame json requestId response :=
    fun f hf => not_response_of_event hf
  match stop, hrelays with
  | .failed err, _ => exact absurd rfl (hok err)
  | .returned (), ⟨status, hfits, _, htaken⟩ =>
    constructor
    · intro _ h
      cases h
    · intro _
      show Ended json requestId ends (taken trace)
      rw [htaken]
      exact ended_of_frames (hstatus status) hfits hvalid fun f hf r _ => hevents f hf r
  | .waiting, ⟨result, hresult, hbegins⟩ =>
    rw [streamCommandOutput, writeJsonFrame_of_fits json requestId hfits]
    constructor
    · intro h _
      refine boundary_of_ended hjson hstatus (htimeout _) (List.forall_mem_append.mpr ⟨hvalid, ?_⟩) hresult hbegins h
      rcases hresult with rfl | ⟨status, rfl, hfits⟩
      · exact fun f hf => by cases hf
      · exact List.forall_mem_singleton.mpr ((responseFrame_valid json requestId).mpr hfits)
    · intro h
      obtain ⟨n, hn⟩ := h rfl
      have hsplit : framesBytes (eventsFrames requestId trace ++ result) =
          framesBytes ((eventsFrames requestId trace).take n) ++
            framesBytes ((eventsFrames requestId trace).drop n ++ result) := by
        rw [← framesBytes_append, ← List.append_assoc, List.take_append_drop]
      have htaken : taken trace = framesBytes ((eventsFrames requestId trace).take n) := by
        rw [hsplit] at hbegins
        exact (List.prefix_of_prefix_length_le hbegins (List.prefix_append _ _) hn.le).eq_of_length hn
      have hsub : (eventsFrames requestId trace).take n ⊆ eventsFrames requestId trace := List.take_subset _ _
      have hwhole := ended_of_frames (htimeout _) hfits (fun f hf => hvalid f (hsub hf))
        fun f hf r _ => hevents f (hsub hf) r
      rwa [framesBytes_append, framesBytes_cons, framesBytes_nil, List.append_nil, ← htaken] at hwhole

/-- A run that fails has sent the frames of its events. -/
theorem execSession_failed (command : Str) (spawned : Except IoError Unit) (fuel : ℕ) :
    Always (fun trace stop => ∀ err, stop = .failed err →
      Runs false .start (events trace) ∧ taken trace = framesBytes (eventsFrames requestId trace))
      (execSession json requestId command spawned fuel) := by
  unfold execSession
  split
  · exact always_fail fun _ _ => ⟨trivial, rfl⟩
  cases spawned with
  | error err => exact always_fail fun _ _ => ⟨trivial, rfl⟩
  | ok u =>
    refine always_bind (relayLoop_relays requestId fuel .start) (fun _ _ _ h => by cases h) ?_ ?_
    · rintro trace err ⟨hruns, htaken, -⟩ _ -
      exact ⟨hruns, htaken⟩
    · rintro first ⟨result, buf⟩ ⟨hruns, htaken, rfl, hresult⟩
      have hfirst : Runs false .start (events (first ++ [])) ∧
          taken (first ++ []) = framesBytes (eventsFrames requestId (first ++ [])) := by
        rw [List.append_nil]
        exact ⟨hruns, htaken⟩
      cases result with
      | error err => exact always_fail fun _ _ => hfirst
      | ok status =>
        by_cases hfits : Fits json (resultResponse status)
        · refine (sendResponse_of_fits json requestId hfits).mono fun rest stop hsends err hstop => ?_
          rw [hstop] at hsends
          exact hsends.elim
        · show Always _ (sendResponse json requestId (resultResponse status) [])
          rw [sendResponse_of_not_fits json requestId hfits]
          exact always_fail fun _ _ => hfirst

variable (json requestId)

/-- **A cancelled exec keeps the wire framed exactly at frame boundaries.** For
every output of the child and every order of its events, all partial writes of
the socket and every await the timeout may cancel (runs with no I/O error): the
connection ends up holding whole frames, the last one the only terminal response,
if and only if the run was not cancelled, or what the socket had taken then was a
whole number of the frames of the child's output. The JSON texts are assumed to
hold no zero byte, which a JSON text never does, and the timeout's to fit a frame. -/
theorem exec_keeps_framing_iff (hjson : ∀ r, EndsExec r → 0 ∉ json r) (state : ServerState) (command : Str)
    (timeoutSecs : Option ℕ) (hfits : Fits json (timeoutResponse (execTimeout timeoutSecs state.execTimeoutSecs)))
    (spawned : Except IoError Unit) (fuel : ℕ) (trace : Session.Trace RelayCall.Answer) (stop : Stop AnyhowError Unit)
    (hexec : Exec (execSession json requestId command spawned fuel) trace stop) (hok : ∀ err, stop ≠ .failed err) :
    ExecFramed json requestId (streamCommandOutput json requestId state timeoutSecs trace stop).2 ↔
      (stop = .waiting → AtBoundary requestId trace) :=
  execEnded_iff hjson endsExec_result endsExec_timeout hfits hexec hok

end

/-! ### Two bytes of output, and a timeout -/

theorem zero_notMem_execResult (status : ℤ) (stdout stderr : Str) (timedOut : Bool) :
    0 ∉ ControlResponse.json (.execResult status stdout stderr timedOut) := by
  refine zero_notMem_jsonTagged _ ?_
  simp only [List.forall_mem_cons, List.not_mem_nil, false_imp_iff, implies_true, and_true]
  refine ⟨zero_notMem_jsonInt status, zero_notMem_jsonString stdout, zero_notMem_jsonString stderr, ?_⟩
  cases timedOut <;> decide

theorem zero_notMem_error (code : ErrorCode) (message : Str) : 0 ∉ ControlResponse.json (.error code message) := by
  refine zero_notMem_jsonTagged _ ?_
  simp only [List.forall_mem_cons, List.not_mem_nil, false_imp_iff, implies_true, and_true]
  refine ⟨?_, zero_notMem_jsonString message⟩
  cases code <;> exact zero_notMem_jsonString _

theorem zero_notMem_of_endsExec : ∀ r, EndsExec r → 0 ∉ ControlResponse.json r
  | .execResult status stdout stderr timedOut, _ => zero_notMem_execResult status stdout stderr timedOut
  | .error .execTimeout message, _ => zero_notMem_error _ message

/-- A child writes `hi` and sleeps. -/
def readHi : { event : RelayEvent // Relay.start.Enabled false event } :=
  ⟨.stdout (.ok (str "hi")), rfl, fun _ h => by cases h; decide⟩

/-- The socket takes `n` bytes of the frame. -/
def hiTrace (n : { n : ℕ // 0 < n ∧ n ≤ 26 }) : Session.Trace RelayCall.Answer :=
  [⟨.other (.select false .start), readHi⟩, ⟨.write (readFrameOf 7 .stdout (str "hi")).bytes, n⟩]

theorem execSession_hi_cut :
    Exec (execSession ControlResponse.json 7 (str "sh") (.ok ()) 2) (hiTrace ⟨10, by decide⟩) .waiting := by
  refine .call (A := SocketCall.Answer RelayCall.Answer) (c := .other (.select false .start)) readHi ?_
  refine .call (A := SocketCall.Answer RelayCall.Answer)
    (c := .write (readFrameOf 7 .stdout (str "hi")).bytes) ⟨10, by decide⟩ ?_
  exact .waiting _ _

theorem execSession_hi_sent :
    Exec (execSession ControlResponse.json 7 (str "sh") (.ok ()) 2) (hiTrace ⟨26, by decide⟩) .waiting := by
  refine .call (A := SocketCall.Answer RelayCall.Answer) (c := .other (.select false .start)) readHi ?_
  refine .call (A := SocketCall.Answer RelayCall.Answer)
    (c := .write (readFrameOf 7 .stdout (str "hi")).bytes) ⟨26, by decide⟩ ?_
  exact .waiting _ _

theorem timeoutResponse_fits : Fits ControlResponse.json (timeoutResponse (execTimeout none testState.execTimeoutSecs)) := by
  decide +kernel

/-- Ten bytes of a frame of 26, and the error follows them. -/
theorem exec_loses_framing :
    Exec (execSession ControlResponse.json 7 (str "sh") (.ok ()) 2) (hiTrace ⟨10, by decide⟩) .waiting ∧
      ¬ ExecFramed ControlResponse.json 7
        (streamCommandOutput ControlResponse.json 7 testState none (hiTrace ⟨10, by decide⟩) .waiting).2 := by
  refine ⟨execSession_hi_cut, fun h => ?_⟩
  obtain ⟨n, hn⟩ := (execEnded_iff zero_notMem_of_endsExec endsExec_result endsExec_timeout timeoutResponse_fits
    execSession_hi_cut fun _ h => by cases h).mp h rfl
  have hten : (taken (hiTrace ⟨10, by decide⟩)).length = 10 := rfl
  cases n with
  | zero => exact absurd (hten.symm.trans hn) (by decide)
  | succ n =>
    have hall : (eventsFrames 7 (hiTrace ⟨10, by decide⟩)).take (n + 1) = [readFrameOf 7 .stdout (str "hi")] := by
      rw [List.take_of_length_le (Nat.le_add_left 1 n)]
      rfl
    rw [hall] at hn
    exact absurd (hten.symm.trans hn) (by decide)

theorem exec_keeps_framing_iff_sent :
    ExecFramed ControlResponse.json 7
        (streamCommandOutput ControlResponse.json 7 testState none (hiTrace ⟨26, by decide⟩) .waiting).2 ↔
      ((.waiting : Stop AnyhowError Unit) = .waiting → AtBoundary 7 (hiTrace ⟨26, by decide⟩)) :=
  exec_keeps_framing_iff ControlResponse.json 7 zero_notMem_of_endsExec testState (str "sh") none
    timeoutResponse_fits (.ok ()) 2 _ _ execSession_hi_sent (fun _ h => by cases h)

end Daemon

end Rsdb
