/-
# Relaying a child's output

`stream_command_output` and `handle_pipe_shell` share one loop: a `select!` over
the child's two pipes and its exit, until both pipes have ended and the child has
exited. A read goes out as a frame, the end of a pipe as an eof frame, and every
frame is flushed. The shell's `select!` has one more branch, for what the task
that feeds the child's stdin reports.

The loop is a session: its turns are queries, answered by any event whose branch
is enabled, and its frames go through a buffered writer to a socket that takes
what it likes. `relayLoop_relays` says what has gone out wherever it stops,
`carriesOutput_of_ended` that this is the child's whole output when it is done,
and `relayLoop_exec` that every order of events is a run.
-/
import Rsdb.Daemon.PullBatch
import Rsdb.Lib.Socket

namespace Rsdb

namespace Daemon

open Prog Session

/-- What a turn of the `select!` gives: a read of a pipe (empty at its end), the
status code of the child, or the message of the stdin task (nothing when it has
ended without one). -/
inductive RelayEvent where
  | stdout (read : Except IoError Bytes)
  | stderr (read : Except IoError Bytes)
  | exit (status : Except IoError (Option Int32))
  | stdin (message : Option AnyhowError)

/-- What the loop knows of the command: which of its outputs are open, and its exit. -/
structure Relay where
  stdoutOpen : Bool
  stderrOpen : Bool
  exitStatus : Option (Option Int32)

namespace Relay

/-- A command that has been started. -/
def start : Relay := ⟨true, true, none⟩

/-- The condition of the loop. -/
def running (relay : Relay) : Bool := relay.stdoutOpen || relay.stderrOpen || relay.exitStatus.isNone

/-- The branch of the event is enabled, and a read fits its buffer. -/
def Enabled (shell : Bool) (relay : Relay) : RelayEvent → Prop
  | .stdout read => relay.stdoutOpen = true ∧ ∀ data, read = .ok data → data.length ≤ defaultStreamChunkSize
  | .stderr read => relay.stderrOpen = true ∧ ∀ data, read = .ok data → data.length ≤ defaultStreamChunkSize
  | .exit _ => relay.exitStatus = none
  | .stdin _ => shell = true

/-- What the loop knows after an event. -/
def after (relay : Relay) : RelayEvent → Relay
  | .stdout (.ok data) => { relay with stdoutOpen := data ≠ [] }
  | .stderr (.ok data) => { relay with stderrOpen := data ≠ [] }
  | .exit (.ok status) => { relay with exitStatus := some status }
  | _ => relay

end Relay

/-- What the loop waits for. -/
inductive RelayCall where
  | select (shell : Bool) (relay : Relay)
  /-- Nothing answers this one. -/
  | never

/-- What it waits for comes, if it can. -/
abbrev RelayCall.Answer : RelayCall → Type
  | select shell relay => { event : RelayEvent // relay.Enabled shell event }
  | never => Empty

/-- What a failing read and a failing wait are reported as. -/
structure RelayFailures where
  read : IoError → AnyhowError
  wait : IoError → AnyhowError

/-- A part of the loop, which writes frames. -/
abbrev RelaySession (α : Type) := Session RelayCall.Answer AnyhowError α

section

variable (requestId : UInt32)

/-- The capacity of `BufWriter::new`. -/
def defaultBufSize : ℕ := 8 * 1024

/-- A frame to a buffered writer over the socket, as `write_frame` and
`write_stream_frame` write it. -/
def frameTo (buf : Bytes) (kind : FrameKind) (flags : UInt32) (payload : Bytes) : RelaySession Bytes :=
  if payload.length > maxPayloadLen then .fail (.ofProtocol (.payloadTooLarge payload.length))
  else
    bufWriteAll defaultBufSize buf (frameHeader kind flags requestId payload).encode.1 >>= fun buf =>
      bufWriteAll defaultBufSize buf payload

/-- What a read of a pipe makes the loop write. -/
def relayRead (channel : StreamChannel) (data buf : Bytes) : RelaySession Bytes :=
  (if data = [] then frameTo requestId buf .stream (streamFlags channel true) []
    else frameTo requestId buf .stream (streamFlags channel false) data) >>= bufFlush

/-- The loop: how it ended, by a message of the stdin task or with the status of
the child, and the buffer. `fuel` bounds the number of turns. -/
def relayLoop (shell : Bool) (failures : RelayFailures) :
    ℕ → Relay → Bytes → RelaySession (Except AnyhowError (Option Int32) × Bytes)
  | 0, _, _ => .call (.other .never) Empty.elim
  | fuel + 1, relay, buf =>
    if relay.running = true then
      .call (.other (.select shell relay)) fun event =>
        match event.1 with
        | .stdout (.error err) | .stderr (.error err) => .fail (failures.read err)
        | .stdout (.ok data) =>
          relayRead requestId .stdout data buf >>= relayLoop shell failures fuel (relay.after event.1)
        | .stderr (.ok data) =>
          relayRead requestId .stderr data buf >>= relayLoop shell failures fuel (relay.after event.1)
        | .exit (.error err) => .fail (failures.wait err)
        | .exit (.ok _) => relayLoop shell failures fuel (relay.after event.1) buf
        | .stdin (some err) => .pure (.error err, buf)
        | .stdin none => relayLoop shell failures fuel (relay.after event.1) buf
    else
      match relay.exitStatus with
      | some status => .pure (.ok status, buf)
      | none => .call (.other .never) Empty.elim

/-! ### What an event makes the loop do -/

/-- The frame of a read. -/
def readFrameOf (channel : StreamChannel) (data : Bytes) : Frame :=
  mkFrame .stream (streamFlags channel (data = [])) requestId data

/-- The frames an event is sent as. -/
def eventFrames : RelayEvent → List Frame
  | .stdout (.ok data) => [readFrameOf requestId .stdout data]
  | .stderr (.ok data) => [readFrameOf requestId .stderr data]
  | _ => []

/-- The error that leaves the loop. -/
def eventFailure (failures : RelayFailures) : RelayEvent → Option AnyhowError
  | .stdout (.error err) | .stderr (.error err) => some (failures.read err)
  | .exit (.error err) => some (failures.wait err)
  | _ => none

/-- The event leaves the loop: a failure, or a message of the stdin task. -/
def RelayEvent.Leaves : RelayEvent → Prop
  | .stdout (.error _) | .stderr (.error _) | .exit (.error _) | .stdin (some _) => True
  | _ => False

/-- The events can be the turns of a loop that starts at `relay`. -/
def Runs (shell : Bool) : Relay → List RelayEvent → Prop
  | _, [] => True
  | relay, event :: events =>
    relay.running = true ∧ relay.Enabled shell event ∧ (event.Leaves → events = []) ∧ Runs shell (relay.after event) events

/-- The events of a trace. -/
def eventOf : (c : RelayCall) × c.Answer → Option RelayEvent
  | ⟨.select _ _, event⟩ => some event.1
  | _ => none

/-- The events of a run. -/
def events (trace : Session.Trace RelayCall.Answer) : List RelayEvent := (asked trace).filterMap eventOf

/-- What the loop has done when it stops: the frames of its events have gone
out, all of them or, if it waits, a prefix of them. -/
def Relays (shell : Bool) (failures : RelayFailures) (relay : Relay) (trace : Session.Trace RelayCall.Answer)
    (stop : Stop AnyhowError (Except AnyhowError (Option Int32) × Bytes)) : Prop :=
  Runs shell relay (events trace) ∧
    match stop with
    | .waiting => taken trace <+: framesBytes ((events trace).flatMap (eventFrames requestId))
    | .failed err =>
      taken trace = framesBytes ((events trace).flatMap (eventFrames requestId)) ∧
        ∃ event, (events trace).getLast? = some event ∧ eventFailure failures event = some err
    | .returned (result, buf) =>
      taken trace = framesBytes ((events trace).flatMap (eventFrames requestId)) ∧ buf = [] ∧
        match result with
        | .ok status => (events trace).foldl Relay.after relay = ⟨false, false, some status⟩ ∧
          ∀ event ∈ events trace, ¬ event.Leaves
        | .error err => (events trace).getLast? = some (.stdin (some err))

/-! ### The steps of the loop -/

theorem frameTo_emits (buf : Bytes) (kind : FrameKind) (flags : UInt32) {payload : Bytes}
    (h : payload.length ≤ maxPayloadLen) :
    Always (Emits (buf ++ (mkFrame kind flags requestId payload).bytes)) (frameTo requestId buf kind flags payload) := by
  rw [frameTo, if_neg (by omega), Frame.bytes, ← List.append_assoc]
  exact Emits.bind (bufWriteAll_emits defaultBufSize buf _) fun b => bufWriteAll_emits defaultBufSize b payload

theorem relayRead_flushes (channel : StreamChannel) {data : Bytes} (h : data.length ≤ defaultStreamChunkSize) :
    Always (Flushes (readFrameOf requestId channel data).bytes) (relayRead requestId channel data []) := by
  refine Emits.flushed ?_
  rw [readFrameOf]
  by_cases hnil : data = []
  · rw [if_pos hnil, hnil]
    exact frameTo_emits requestId [] .stream _ (Nat.zero_le _)
  · rw [if_neg hnil, decide_eq_false hnil]
    exact frameTo_emits requestId [] .stream _ (chunk_le_max h)

theorem events_append (a b : Session.Trace RelayCall.Answer) : events (a ++ b) = events a ++ events b := by
  rw [events, asked_append, List.filterMap_append]
  rfl

theorem events_of_asked {trace : Session.Trace RelayCall.Answer} (h : asked trace = []) : events trace = [] := by
  rw [events, h]
  rfl

variable {requestId} {shell : Bool} {failures : RelayFailures} {relay : Relay}

theorem events_select (event : { event : RelayEvent // relay.Enabled shell event })
    (trace : Session.Trace RelayCall.Answer) :
    events (⟨.other (.select shell relay), event⟩ :: trace) = event.1 :: events trace := rfl

/-- A turn whose frames have all gone out, and what comes after it. -/
theorem Relays.turn (hrunning : relay.running = true) (event : { event : RelayEvent // relay.Enabled shell event })
    (hstays : ¬ event.1.Leaves) {first rest : Session.Trace RelayCall.Answer} (hasked : asked first = [])
    (htaken : taken first = framesBytes (eventFrames requestId event.1))
    {stop : Stop AnyhowError (Except AnyhowError (Option Int32) × Bytes)}
    (h : Relays requestId shell failures (relay.after event.1) rest stop) :
    Relays requestId shell failures relay (⟨.other (.select shell relay), event⟩ :: (first ++ rest)) stop := by
  have hevents : events (⟨.other (.select shell relay), event⟩ :: (first ++ rest)) = event.1 :: events rest := by
    rw [events_select, events_append, events_of_asked hasked, List.nil_append]
  have htaken' : taken (⟨.other (.select shell relay), event⟩ :: (first ++ rest)) = taken first ++ taken rest :=
    taken_append first rest
  obtain ⟨hruns, hstop⟩ := h
  unfold Relays
  rw [hevents, htaken', htaken, List.flatMap_cons, framesBytes_append]
  refine ⟨⟨hrunning, event.2, fun hleaves => absurd hleaves hstays, hruns⟩, ?_⟩
  match stop, hstop with
  | .waiting, hstop => exact (List.prefix_append_right_inj _).mpr hstop
  | .failed err, ⟨hall, last, hlast, hfailure⟩ =>
    refine ⟨by rw [hall], last, ?_, hfailure⟩
    rw [List.getLast?_cons, hlast, Option.getD_some]
  | .returned (.ok status, buf), ⟨hall, hbuf, hdone, hnone⟩ =>
    exact ⟨by rw [hall], hbuf, hdone, List.forall_mem_cons.mpr ⟨hstays, hnone⟩⟩
  | .returned (.error err, buf), ⟨hall, hbuf, hlast⟩ =>
    refine ⟨by rw [hall], hbuf, ?_⟩
    rw [List.getLast?_cons, hlast, Option.getD_some]

variable (requestId)

/-- A read that is relayed, and what comes after it. -/
theorem relayRead_relays (hrunning : relay.running = true) (channel : StreamChannel) {data : Bytes}
    (hsize : data.length ≤ defaultStreamChunkSize) (event : { event : RelayEvent // relay.Enabled shell event })
    (hstays : ¬ event.1.Leaves) (hframe : eventFrames requestId event.1 = [readFrameOf requestId channel data])
    {next : Bytes → RelaySession (Except AnyhowError (Option Int32) × Bytes)}
    (hnext : Always (Relays requestId shell failures (relay.after event.1)) (next [])) :
    Always (fun trace stop => Relays requestId shell failures relay
      (⟨.other (.select shell relay), event⟩ :: trace) stop) (relayRead requestId channel data [] >>= next) := by
  have hbytes : framesBytes (eventFrames requestId event.1) = (readFrameOf requestId channel data).bytes := by
    rw [hframe, framesBytes_cons, framesBytes_nil, List.append_nil]
  refine always_bind (relayRead_flushes requestId channel hsize) ?_ (fun _ _ h => h.elim) ?_
  · rintro trace ⟨hasked, htaken⟩
    unfold Relays
    rw [events_select, events_of_asked hasked]
    refine ⟨⟨hrunning, event.2, fun _ => rfl, trivial⟩, ?_⟩
    show taken trace <+: _
    rw [List.flatMap_cons, List.flatMap_nil, List.append_nil, hbytes]
    exact htaken
  · rintro first _ ⟨hasked, htaken, rfl⟩
    exact hnext.mono fun rest stop h => h.turn hrunning event hstays hasked (htaken.trans hbytes.symm)

/-- A turn with nothing to write. -/
theorem Relays.quietTurn (hrunning : relay.running = true) (event : { event : RelayEvent // relay.Enabled shell event })
    (hstays : ¬ event.1.Leaves) (hframes : eventFrames requestId event.1 = []) {rest : Session.Trace RelayCall.Answer}
    {stop : Stop AnyhowError (Except AnyhowError (Option Int32) × Bytes)}
    (h : Relays requestId shell failures (relay.after event.1) rest stop) :
    Relays requestId shell failures relay (⟨.other (.select shell relay), event⟩ :: rest) stop := by
  have hasked : asked ([] : Session.Trace RelayCall.Answer) = [] := rfl
  exact h.turn hrunning event hstays hasked (by rw [hframes]; rfl)

/-- An event that leaves the loop. -/
theorem Relays.leave (hrunning : relay.running = true) (event : { event : RelayEvent // relay.Enabled shell event })
    {err : AnyhowError} (hframes : eventFrames requestId event.1 = [])
    (hfailure : eventFailure failures event.1 = some err) :
    Relays requestId shell failures relay [⟨.other (.select shell relay), event⟩] (.failed err) := by
  unfold Relays
  rw [events_select]
  refine ⟨⟨hrunning, event.2, fun _ => rfl, trivial⟩, ?_, event.1, rfl, hfailure⟩
  show ([] : Bytes) = framesBytes (eventFrames requestId event.1 ++ [])
  rw [hframes]
  rfl

/-- Wherever the loop stops, the frames of its events have gone out in order. -/
theorem relayLoop_relays : ∀ (fuel : ℕ) (relay : Relay),
    Always (Relays requestId shell failures relay) (relayLoop requestId shell failures fuel relay [])
  | 0, relay => always_call ⟨trivial, List.nil_prefix⟩ fun r => r.elim
  | fuel + 1, relay => by
    rw [relayLoop]
    split
    · rename_i hrunning
      have ih := relayLoop_relays fuel
      refine always_call ⟨trivial, List.nil_prefix⟩ fun event => ?_
      rcases event with ⟨event, henabled⟩
      cases event with
      | stdout read =>
        cases read with
        | error err => exact always_fail (Relays.leave requestId hrunning ⟨_, henabled⟩ rfl rfl)
        | ok data =>
          exact relayRead_relays requestId hrunning .stdout (henabled.2 data rfl) ⟨_, henabled⟩ id rfl (ih _)
      | stderr read =>
        cases read with
        | error err => exact always_fail (Relays.leave requestId hrunning ⟨_, henabled⟩ rfl rfl)
        | ok data =>
          exact relayRead_relays requestId hrunning .stderr (henabled.2 data rfl) ⟨_, henabled⟩ id rfl (ih _)
      | exit status =>
        cases status with
        | error err => exact always_fail (Relays.leave requestId hrunning ⟨_, henabled⟩ rfl rfl)
        | ok status => exact (ih _).mono fun rest stop h => h.quietTurn requestId hrunning ⟨_, henabled⟩ id rfl
      | stdin message =>
        cases message with
        | none => exact (ih _).mono fun rest stop h => h.quietTurn requestId hrunning ⟨_, henabled⟩ id rfl
        | some err =>
          refine always_pure ?_
          unfold Relays
          rw [events_select]
          exact ⟨⟨hrunning, henabled, fun _ => rfl, trivial⟩, rfl, rfl, rfl⟩
    · rename_i hdone
      rcases relay with ⟨stdoutOpen, stderrOpen, exitStatus⟩
      cases exitStatus with
      | none => simp [Relay.running] at hdone
      | some status =>
        obtain ⟨rfl, rfl⟩ : stdoutOpen = false ∧ stderrOpen = false := by simpa [Relay.running] using hdone
        exact always_pure ⟨trivial, rfl, rfl, rfl, by simp [events, asked]⟩

/-! ### What reaches a channel -/

/-- What an event reads from the pipe of a channel. -/
def RelayEvent.read? (channel : StreamChannel) : RelayEvent → Option Bytes
  | .stdout (.ok data) => if channel = .stdout then some data else none
  | .stderr (.ok data) => if channel = .stderr then some data else none
  | _ => none

/-- The reads of a channel's pipe. -/
def readsOn (channel : StreamChannel) (events : List RelayEvent) : List Bytes := events.filterMap (RelayEvent.read? channel)

/-- The output on a channel is open. -/
def Relay.openOn (relay : Relay) : StreamChannel → Bool
  | .stdout => relay.stdoutOpen
  | .stderr => relay.stderrOpen
  | _ => false

theorem RelayEvent.read?_eq_some {channel : StreamChannel} {event : RelayEvent} {data : Bytes}
    (h : event.read? channel = some data) :
    (event = .stdout (.ok data) ∧ channel = .stdout) ∨ (event = .stderr (.ok data) ∧ channel = .stderr) := by
  unfold RelayEvent.read? at h
  split at h
  · split at h
    · exact Or.inl ⟨by rw [Option.some.inj h], by assumption⟩
    · cases h
  · split at h
    · exact Or.inr ⟨by rw [Option.some.inj h], by assumption⟩
    · cases h
  · cases h

theorem Relay.openOn_after_of_read {channel : StreamChannel} {event : RelayEvent} {data : Bytes}
    (h : event.read? channel = some data) : (relay.after event).openOn channel = decide (data ≠ []) := by
  rcases event.read?_eq_some h with ⟨rfl, rfl⟩ | ⟨rfl, rfl⟩
  · rfl
  · rfl

theorem Relay.openOn_of_read {channel : StreamChannel} {event : RelayEvent} {data : Bytes}
    (henabled : relay.Enabled shell event) (h : event.read? channel = some data) : relay.openOn channel = true := by
  rcases event.read?_eq_some h with ⟨rfl, rfl⟩ | ⟨rfl, rfl⟩
  · exact henabled.1
  · exact henabled.1

theorem Relay.openOn_after_of_other {channel : StreamChannel} {event : RelayEvent}
    (h : event.read? channel = none) : (relay.after event).openOn channel = relay.openOn channel := by
  unfold Relay.after
  split
  · cases channel <;> first | rfl | simp [RelayEvent.read?] at h
  · cases channel <;> first | rfl | simp [RelayEvent.read?] at h
  · cases channel <;> rfl
  · rfl

/-- Nothing is read from a pipe that has ended. -/
theorem readsOn_of_closed (channel : StreamChannel) : ∀ {events : List RelayEvent} {relay : Relay},
    Runs shell relay events → relay.openOn channel = false → readsOn channel events = []
  | [], _, _, _ => rfl
  | event :: events, relay, ⟨_, henabled, _, hruns⟩, hclosed => by
    cases hread : event.read? channel with
    | some data =>
      rw [Relay.openOn_of_read henabled hread] at hclosed
      cases hclosed
    | none =>
      rw [readsOn, List.filterMap_cons_none hread]
      exact readsOn_of_closed channel hruns (by rw [Relay.openOn_after_of_other hread, hclosed])

/-- A pipe that has ended has given its reads and then one empty read. -/
theorem readsOn_of_ended (channel : StreamChannel) : ∀ {events : List RelayEvent} {relay : Relay},
    Runs shell relay events → relay.openOn channel = true → (events.foldl Relay.after relay).openOn channel = false →
      ∃ chunks, readsOn channel events = chunks ++ [[]] ∧ ∀ c ∈ chunks, c ≠ []
  | [], relay, _, hopen, hended => by
    rw [List.foldl_nil, hopen] at hended
    cases hended
  | event :: events, relay, ⟨_, henabled, _, hruns⟩, hopen, hended => by
    rw [List.foldl_cons] at hended
    cases hread : event.read? channel with
    | none =>
      rw [readsOn, List.filterMap_cons_none hread]
      exact readsOn_of_ended channel hruns (by rw [Relay.openOn_after_of_other hread, hopen]) hended
    | some data =>
      have hafter : (relay.after event).openOn channel = decide (data ≠ []) := Relay.openOn_after_of_read hread
      rw [readsOn, List.filterMap_cons_some hread]
      by_cases hnil : data = []
      · have hclosed : (relay.after event).openOn channel = false := by simpa [hnil] using hafter
        have hnone := readsOn_of_closed channel hruns hclosed
        rw [readsOn] at hnone
        exact ⟨[], by rw [hnone, hnil]; rfl, by simp⟩
      · have hstill : (relay.after event).openOn channel = true := by simpa [hnil] using hafter
        obtain ⟨chunks, hreads, hchunks⟩ := readsOn_of_ended channel hruns hstill hended
        rw [readsOn] at hreads
        exact ⟨data :: chunks, by rw [hreads]; rfl, List.forall_mem_cons.mpr ⟨hnil, hchunks⟩⟩

/-- Nothing but the reads of a channel's pipe goes out on it. -/
theorem eventFrames_filter (channel : StreamChannel) (event : RelayEvent) :
    (eventFrames requestId event).filter (fun f => f.channel? = some channel) =
      (event.read? channel).toList.map (readFrameOf requestId channel) := by
  unfold eventFrames RelayEvent.read?
  split
  · by_cases h : channel = .stdout
    · simp [h, readFrameOf]
    · simp [h, readFrameOf, Ne.symm h]
  · by_cases h : channel = .stderr
    · simp [h, readFrameOf]
    · simp [h, readFrameOf, Ne.symm h]
  · rfl

theorem framesOn_eq (channel : StreamChannel) : ∀ events : List RelayEvent,
    (events.flatMap (eventFrames requestId)).filter (fun f => f.channel? = some channel) =
      (readsOn channel events).map (readFrameOf requestId channel)
  | [] => rfl
  | event :: events => by
    rw [List.flatMap_cons, List.filter_append, eventFrames_filter, framesOn_eq channel events, ← List.map_append]
    cases h : event.read? channel with
    | none => rw [readsOn, readsOn, List.filterMap_cons_none h]; rfl
    | some data => rw [readsOn, readsOn, List.filterMap_cons_some h]; rfl

theorem eventFrames_valid {event : RelayEvent} (henabled : relay.Enabled shell event) :
    ∀ f ∈ eventFrames requestId event, f.Valid := by
  unfold eventFrames
  split
  · exact List.forall_mem_singleton.mpr (mkFrame_valid (chunk_le_max (henabled.2 _ rfl)))
  · exact List.forall_mem_singleton.mpr (mkFrame_valid (chunk_le_max (henabled.2 _ rfl)))
  · exact fun f hf => by cases hf

theorem eventFrames_channel (event : RelayEvent) :
    ∀ f ∈ eventFrames requestId event, f.channel? = some .stdout ∨ f.channel? = some .stderr := by
  unfold eventFrames
  split
  · exact List.forall_mem_singleton.mpr (Or.inl (Frame.channel?_mkFrame ..))
  · exact List.forall_mem_singleton.mpr (Or.inr (Frame.channel?_mkFrame ..))
  · exact fun f hf => by cases hf

theorem Runs.valid : ∀ {events : List RelayEvent} {relay : Relay}, Runs shell relay events →
    ∀ f ∈ events.flatMap (eventFrames requestId), f.Valid
  | [], _, _ => fun f hf => by cases hf
  | event :: events, relay, ⟨_, henabled, _, hruns⟩ => by
    rw [List.flatMap_cons, List.forall_mem_append]
    exact ⟨eventFrames_valid requestId henabled, hruns.valid⟩

/-! ### The child -/

/-- What reads of a pipe that holds `data` when its writers are done can give:
some bytes each, and none only when all have been read. -/
inductive PipeReads : Bytes → List Bytes → Prop where
  | nil (data : Bytes) : PipeReads data []
  | chunk {chunk rest : Bytes} {reads : List Bytes} :
      chunk ≠ [] → PipeReads rest reads → PipeReads (chunk ++ rest) (chunk :: reads)
  | ended {reads : List Bytes} : PipeReads [] reads → PipeReads [] ([] :: reads)

/-- What has been read when a read gives nothing is all there was. -/
theorem PipeReads.all : ∀ {chunks : List Bytes} {data : Bytes}, (∀ c ∈ chunks, c ≠ []) →
    PipeReads data (chunks ++ [[]]) → chunks.flatten = data
  | [], data, _, h => by
    cases h with
    | chunk hne => exact absurd rfl hne
    | ended => rfl
  | c :: chunks, data, hne, h => by
    rw [List.forall_mem_cons] at hne
    cases h with
    | chunk _ h => rw [List.flatten_cons, PipeReads.all hne.2 h]
    | ended => exact absurd rfl hne.1

/-- A child: what it writes to its pipes, and its exit code, which it has unless
a signal ends it. -/
structure Child where
  stdout : Bytes
  stderr : Bytes
  status : Option Int32
  deriving DecidableEq

/-- The events are those of the child, cut and ordered in any way. -/
structure Child.Shows (child : Child) (events : List RelayEvent) : Prop where
  stdout : PipeReads child.stdout (readsOn .stdout events)
  stderr : PipeReads child.stderr (readsOn .stderr events)
  status : ∀ status, .exit (.ok status) ∈ events → status = child.status

/-- The frames on a channel carry the data, in frames that are not eof frames,
and end with one eof frame. -/
def Carries (frames : List Frame) (channel : StreamChannel) (data : Bytes) : Prop :=
  ∃ chunks : List Bytes, chunks.flatten = data ∧
    frames.filter (fun f => f.channel? = some channel) =
      chunks.map (mkFrame .stream (streamFlags channel false) requestId) ++
        [mkFrame .stream (streamFlags channel true) requestId []]

/-- The frames are the child's whole output. -/
structure CarriesOutput (child : Child) (frames : List Frame) : Prop where
  valid : ∀ f ∈ frames, f.Valid
  channels : ∀ f ∈ frames, f.channel? = some .stdout ∨ f.channel? = some .stderr
  stdout : Carries requestId frames .stdout child.stdout
  stderr : Carries requestId frames .stderr child.stderr

theorem Relay.exitStatus_after {status : Option Int32} {event : RelayEvent}
    (h : (relay.after event).exitStatus = some status) :
    relay.exitStatus = some status ∨ event = .exit (.ok status) := by
  unfold Relay.after at h
  split at h
  · exact Or.inl h
  · exact Or.inl h
  · exact Or.inr (by rw [Option.some.inj h])
  · exact Or.inl h

theorem exitStatus_of_foldl {status : Option Int32} : ∀ {events : List RelayEvent} {relay : Relay},
    (events.foldl Relay.after relay).exitStatus = some status →
      relay.exitStatus = some status ∨ .exit (.ok status) ∈ events
  | [], _, h => Or.inl h
  | event :: events, relay, h => by
    rw [List.foldl_cons] at h
    rcases exitStatus_of_foldl h with hafter | hmem
    · rcases Relay.exitStatus_after hafter with hbefore | rfl
      · exact Or.inl hbefore
      · exact Or.inr List.mem_cons_self
    · exact Or.inr (List.mem_cons_of_mem _ hmem)

theorem carries_of_ended (channel : StreamChannel) {events : List RelayEvent} {data : Bytes}
    (hruns : Runs shell relay events) (hopen : relay.openOn channel = true)
    (hended : (events.foldl Relay.after relay).openOn channel = false)
    (hreads : PipeReads data (readsOn channel events)) :
    Carries requestId (events.flatMap (eventFrames requestId)) channel data := by
  obtain ⟨chunks, hchunks, hne⟩ := readsOn_of_ended channel hruns hopen hended
  rw [hchunks] at hreads
  refine ⟨chunks, hreads.all hne, ?_⟩
  rw [framesOn_eq, hchunks, List.map_append]
  congr 1
  refine List.map_congr_left fun c hc => ?_
  rw [readFrameOf, decide_eq_false (hne c hc)]

/-- A loop that has ended has sent the child's whole output, and has its status. -/
theorem carriesOutput_of_ended {events : List RelayEvent} {child : Child} {status : Option Int32}
    (hruns : Runs shell .start events) (hended : events.foldl Relay.after .start = ⟨false, false, some status⟩)
    (hchild : child.Shows events) :
    CarriesOutput requestId child (events.flatMap (eventFrames requestId)) ∧ status = child.status := by
  refine ⟨⟨hruns.valid requestId, ?_, ?_, ?_⟩, ?_⟩
  · intro f hf
    obtain ⟨event, _, hf⟩ := List.mem_flatMap.mp hf
    exact eventFrames_channel requestId event f hf
  · exact carries_of_ended requestId .stdout hruns rfl (by rw [hended]; rfl) hchild.stdout
  · exact carries_of_ended requestId .stderr hruns rfl (by rw [hended]; rfl) hchild.stderr
  · rcases exitStatus_of_foldl (congrArg Relay.exitStatus hended) with hstart | hmem
    · cases hstart
    · exact hchild.status status hmem

/-! ### Every order of events is a run of the loop -/

theorem frameTo_completes (buf : Bytes) (kind : FrameKind) (flags : UInt32) {payload : Bytes}
    (h : payload.length ≤ maxPayloadLen) : Completes (frameTo requestId buf kind flags payload) := by
  rw [frameTo, if_neg (by omega)]
  exact (bufWriteAll_completes _ _ _).bind fun b => bufWriteAll_completes _ b payload

theorem relayRead_completes (channel : StreamChannel) {data : Bytes} (h : data.length ≤ defaultStreamChunkSize)
    (buf : Bytes) : Completes (relayRead requestId channel data buf) := by
  refine Completes.bind ?_ fun b => bufFlush_completes b
  split
  · exact frameTo_completes requestId buf .stream _ (Nat.zero_le _)
  · exact frameTo_completes requestId buf .stream _ (chunk_le_max h)

/-- A read, and what comes after it. -/
theorem relayRead_exec (channel : StreamChannel) {data : Bytes} (h : data.length ≤ defaultStreamChunkSize)
    {α : Type} {next : Bytes → RelaySession α} {rest : Session.Trace RelayCall.Answer} {stop : Stop AnyhowError α}
    (hnext : Exec (next []) rest stop) :
    ∃ trace, Exec (relayRead requestId channel data [] >>= next) trace stop ∧ events trace = events rest := by
  obtain ⟨first, buf, hfirst⟩ := relayRead_completes requestId channel h []
  obtain ⟨hasked, _, rfl⟩ := relayRead_flushes requestId channel h first _ hfirst
  exact ⟨first ++ rest, hfirst.bind hnext, by rw [events_append, events_of_asked hasked, List.nil_append]⟩

variable (failures)

/-- Any events that end the loop, in any order, are the events of a run. -/
theorem relayLoop_exec {status : Option Int32} : ∀ (es : List RelayEvent) (relay : Relay) {fuel : ℕ},
    es.length < fuel → Runs shell relay es → (∀ event ∈ es, ¬ event.Leaves) →
    es.foldl Relay.after relay = ⟨false, false, some status⟩ →
      ∃ trace, Exec (relayLoop requestId shell failures fuel relay []) trace (.returned (.ok status, [])) ∧
        events trace = es
  | [], relay, fuel + 1, _, _, _, hended => by
    rw [List.foldl_nil] at hended
    subst hended
    exact ⟨[], .pure _, rfl⟩
  | event :: es, relay, fuel + 1, hfuel, ⟨hrunning, henabled, _, hruns⟩, hstays, hended => by
    rw [List.forall_mem_cons] at hstays
    rw [List.foldl_cons] at hended
    obtain ⟨rest, hrest, hevents⟩ := relayLoop_exec es (relay.after event)
      (Nat.lt_of_succ_lt_succ hfuel) hruns hstays.2 hended
    have hread : ∀ channel {data}, data.length ≤ defaultStreamChunkSize → ∃ trace,
        Exec (relayRead requestId channel data [] >>= relayLoop requestId shell failures fuel (relay.after event))
          trace (.returned (.ok status, [])) ∧ events trace = es := fun channel data h => by
      obtain ⟨trace, hexec, hrest'⟩ := relayRead_exec requestId channel h hrest
      exact ⟨trace, hexec, hrest'.trans hevents⟩
    have hturn : ∃ trace, Exec (relayLoop requestId shell failures (fuel + 1) relay [])
        (⟨.other (.select shell relay), ⟨event, henabled⟩⟩ :: trace) (.returned (.ok status, [])) ∧
          events trace = es := by
      rw [relayLoop, if_pos hrunning]
      cases event with
      | stdout read =>
        cases read with
        | error err => exact absurd trivial hstays.1
        | ok data =>
          obtain ⟨trace, hexec, htrace⟩ := hread .stdout (henabled.2 data rfl)
          exact ⟨trace, .call _ hexec, htrace⟩
      | stderr read =>
        cases read with
        | error err => exact absurd trivial hstays.1
        | ok data =>
          obtain ⟨trace, hexec, htrace⟩ := hread .stderr (henabled.2 data rfl)
          exact ⟨trace, .call _ hexec, htrace⟩
      | exit status =>
        cases status with
        | error err => exact absurd trivial hstays.1
        | ok status => exact ⟨rest, .call _ hrest, hevents⟩
      | stdin message =>
        cases message with
        | none => exact ⟨rest, .call _ hrest, hevents⟩
        | some err => exact absurd trivial hstays.1
    obtain ⟨trace, hexec, htrace⟩ := hturn
    exact ⟨_, hexec, by rw [events_select, htrace]⟩

end

/-! ### The response after the loop -/

section

variable (json : ControlResponse → Bytes) (requestId : UInt32)

/-- The frames of the events. -/
def eventsFrames (trace : Session.Trace RelayCall.Answer) : List Frame := (events trace).flatMap (eventFrames requestId)

/-- `status.code().unwrap_or(-1)`. -/
def exitCode (status : Option Int32) : ℤ := (status.getD (-1)).toInt

/-- `write_json_frame` to a buffered writer, and its flush. -/
def sendResponse (response : ControlResponse) (buf : Bytes) : RelaySession Unit :=
  (frameTo requestId buf .response 0 (json response) >>= bufFlush) >>= fun _ => .pure ()

theorem sendResponse_of_fits {response : ControlResponse} (h : Fits json response) :
    Always (Sends (responseFrame json requestId response).bytes) (sendResponse json requestId response []) := by
  refine always_bind (Emits.flushed (frameTo_emits requestId [] .response 0 h)) (fun _ h => h) (fun _ _ h => h.elim) ?_
  rintro first _ ⟨hasked, htaken, rfl⟩
  refine always_pure ?_
  rw [List.append_nil]
  exact ⟨hasked, htaken⟩

theorem sendResponse_of_not_fits {response : ControlResponse} (h : ¬ Fits json response) (buf : Bytes) :
    sendResponse json requestId response buf = .fail (.ofProtocol (.payloadTooLarge (json response).length)) := by
  rw [sendResponse, frameTo, if_pos (not_le.mp h)]
  rfl

theorem sendResponse_completes {response : ControlResponse} (h : Fits json response) :
    Completes (sendResponse json requestId response []) :=
  ((frameTo_completes requestId [] .response 0 h).bind fun b => bufFlush_completes b).bind fun _ => completes_pure ()

end

end Daemon

end Rsdb
