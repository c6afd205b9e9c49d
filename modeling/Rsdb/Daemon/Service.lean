/-
# The daemon's service loops

`main` accepts connections in a loop, each handled in a task of its own, and a
task it has spawned (`handle_discovery`) answers discovery probes. Both loops go
on for ever, and an error that leaves one of them ends it: a discovery reply that
cannot be encoded or sent, and a failing `accept`, which ends `main` and the
discovery task with it.

An event is a datagram received, with what becomes of a reply to it, or an
`accept` returning, with what becomes of the connection. `service_runs_iff` says
for which sequences of events both loops keep running and do their work.
-/
import Rsdb.Proto.Discovery

namespace Rsdb

namespace Daemon

/-- What the daemon knows of itself. -/
structure ServerState where
  serverId : Str
  deviceName : Str
  platform : Str
  shellPath : Str
  execTimeoutSecs : ℕ
  tcpPort : ℕ
  deriving DecidableEq

/-- What the daemon can do. -/
def capabilities : CapabilitySet where
  protocolVersion := protocolVersion.toNat
  transports := [str "tcp", str "udp-discovery"]
  security := [str "none"]
  features := [str "discover.udp", str "ping", str "capability", str "exec.direct", str "exec.stream",
    str "agent.exec.v1", str "agent.fs.stat.v1", str "agent.fs.list.v1", str "agent.fs.read.v1",
    str "agent.fs.write.v1", str "agent.fs.mkdir.v1", str "agent.fs.rm.v1", str "agent.fs.move.v1",
    str "agent.transfer.push.v1", str "agent.transfer.pull.v1", str "shell.exec", str "shell.interactive",
    str "shell.pty", str "fs.push", str "fs.pull", str "fs.push.batch", str "fs.pull.batch"]

/-- A datagram: what was sent, from where (an address as it is printed), and
what a `send_to` back gives. -/
structure Datagram where
  bytes : Bytes
  peer : Str
  sent : Except IoError Unit

/-- A reply that has gone out. -/
structure Reply where
  payload : Bytes
  peer : Str
  deriving DecidableEq

/-- A connection: whether `set_nodelay` succeeds, and how its handler ends. -/
structure Connection where
  peer : Str
  nodelay : Except IoError Unit
  handled : Except AnyhowError Unit

/-- What comes to the sockets of the service. -/
inductive ServiceEvent where
  | datagram (d : Datagram)
  | accept (outcome : Except IoError Connection)

/-- The two loops: why each has ended, if it has, and what it has done. -/
structure Service where
  discovery : Option AnyhowError
  accepting : Option AnyhowError
  replies : List Reply
  spawned : List Connection

section

variable (decode : Bytes → Except Str DiscoveryRequest) (json : DiscoveryResponse → Bytes) (state : ServerState)

/-- The size of the receive buffer: a longer datagram is cut. -/
def discoveryBufferLen : ℕ := maxDiscoveryPayloadLen + discoveryMagic.length

/-- How the daemon makes itself known to a probe. -/
def probeResponse (nonce : ℕ) : DiscoveryResponse :=
  ⟨nonce, state.serverId, state.deviceName, state.platform, state.tcpPort, protocolVersion.toNat, capabilities.features⟩

/-- One turn of the loop of `handle_discovery`: the reply that went out, if there
was one to send, or the error that leaves the loop. -/
def discoveryTurn (d : Datagram) : Except AnyhowError (Option Reply) :=
  match decodeDiscoveryMessage decode (d.bytes.take discoveryBufferLen) with
  | .error _ => .ok none
  | .ok (.probe nonce) =>
    match encodeDiscoveryMessage (json (probeResponse state nonce)) with
    | .error err => .error (.ofProtocol err)
    | .ok payload =>
      match d.sent with
      | .error err =>
        .error ((AnyhowError.ofIo err).context (str "failed to send discovery response to " ++ d.peer))
      | .ok () => .ok (some ⟨payload, d.peer⟩)

/-- What an event does. When `main` has returned, nothing runs; a `set_nodelay`
that fails and a handler that fails are logged. -/
def Service.step (service : Service) (event : ServiceEvent) : Service :=
  if service.accepting.isSome then service
  else
    match event with
    | .datagram d =>
      if service.discovery.isSome then service
      else
        match discoveryTurn decode json state d with
        | .error err => { service with discovery := some err }
        | .ok none => service
        | .ok (some reply) => { service with replies := service.replies ++ [reply] }
    | .accept (.error err) =>
      { service with accepting := some ((AnyhowError.ofIo err).context (str "accept failed")) }
    | .accept (.ok connection) => { service with spawned := service.spawned ++ [connection] }

/-- The service on the events in their order. -/
def Service.run (events : List ServiceEvent) : Service :=
  events.foldl (Service.step decode json state) ⟨none, none, [], []⟩

/-! ### What the loops are for -/

/-- The reply a datagram should get: a valid probe is answered, to the one who sent
it, with its nonce and what the daemon is, unless the send fails. -/
def dueReply (d : Datagram) : Option Reply :=
  match decodeDiscoveryMessage decode (d.bytes.take discoveryBufferLen), d.sent with
  | .ok (.probe nonce), .ok () =>
    let response : DiscoveryResponse :=
      { nonce := nonce
        serverId := state.serverId
        deviceName := state.deviceName
        platform := state.platform
        tcpPort := state.tcpPort
        protocolVersion := protocolVersion.toNat
        features := capabilities.features }
    some ⟨discoveryMagic ++ json response, d.peer⟩
  | _, _ => none

/-- The replies to what came, in its order. -/
def dueReplies (events : List ServiceEvent) : List Reply :=
  events.filterMap fun
    | .datagram d => dueReply decode json state d
    | .accept _ => none

/-- The connections to be served. -/
def dueConnections (events : List ServiceEvent) : List Connection :=
  events.filterMap fun
    | .accept (.ok connection) => some connection
    | _ => none

/-- Both loops still run, every valid probe has its reply unless its send has
failed, and every connection accepted has its task. -/
structure Serving (events : List ServiceEvent) : Prop where
  discovery : (Service.run decode json state events).discovery = none
  accepting : (Service.run decode json state events).accepting = none
  replies : (Service.run decode json state events).replies = dueReplies decode json state events
  spawned : (Service.run decode json state events).spawned = dueConnections events

/-- An event with nothing to end a loop: a reply that is due can be encoded and
is sent, an `accept` returns a connection. -/
def Survivable : ServiceEvent → Prop
  | .datagram d => ∀ nonce,
    decodeDiscoveryMessage decode (d.bytes.take discoveryBufferLen) = .ok (.probe nonce) →
      (json (probeResponse state nonce)).length ≤ maxDiscoveryPayloadLen ∧ d.sent = .ok ()
  | .accept outcome => ∃ connection, outcome = .ok connection

/-! ### One event -/

/-- A loop has ended. -/
def Service.Stopped (service : Service) : Prop := service.discovery.isSome = true ∨ service.accepting.isSome = true

/-- What two running loops have done after one more event. -/
def Service.grown (service : Service) (replies : List Reply) (spawned : List Connection) : Service :=
  { service with replies := service.replies ++ replies, spawned := service.spawned ++ spawned }

theorem Service.grown_nil (service : Service) : service.grown [] [] = service := by
  rw [Service.grown, List.append_nil, List.append_nil]

theorem Service.grown_grown (service : Service) (r r' : List Reply) (c c' : List Connection) :
    (service.grown r c).grown r' c' = service.grown (r ++ r') (c ++ c') := by
  simp [Service.grown]

variable {decode json state}

theorem discoveryTurn_of_survivable {d : Datagram} (h : Survivable decode json state (.datagram d)) :
    discoveryTurn decode json state d = .ok (dueReply decode json state d) := by
  rw [discoveryTurn, dueReply]
  cases hdecode : decodeDiscoveryMessage decode (d.bytes.take discoveryBufferLen) with
  | error err => rfl
  | ok request =>
    obtain ⟨nonce⟩ := request
    obtain ⟨hfits, hsent⟩ := h nonce hdecode
    simp only [encodeDiscoveryMessage, if_neg (not_lt.mpr hfits), hsent]
    rfl

theorem discoveryTurn_of_not_survivable {d : Datagram} (h : ¬ Survivable decode json state (.datagram d)) :
    ∃ err, discoveryTurn decode json state d = .error err := by
  simp only [Survivable, not_forall] at h
  obtain ⟨nonce, hdecode, hfault⟩ := h
  rw [discoveryTurn, hdecode]
  by_cases hfits : (json (probeResponse state nonce)).length ≤ maxDiscoveryPayloadLen
  · cases hsent : d.sent with
    | ok u => exact absurd ⟨hfits, hsent⟩ hfault
    | error err =>
      simp only [encodeDiscoveryMessage, if_neg (not_lt.mpr hfits)]
      exact ⟨_, rfl⟩
  · simp only [encodeDiscoveryMessage, if_pos (not_le.mp hfits)]
    exact ⟨_, rfl⟩

theorem step_of_survivable {service : Service} (hrunning : ¬ service.Stopped) {event : ServiceEvent}
    (h : Survivable decode json state event) :
    Service.step decode json state service event =
      service.grown (dueReplies decode json state [event]) (dueConnections [event]) := by
  obtain ⟨hdiscovery, haccepting⟩ := not_or.mp hrunning
  unfold Service.step
  rw [if_neg haccepting]
  cases event with
  | datagram d =>
    simp only [if_neg hdiscovery, discoveryTurn_of_survivable h]
    cases hdue : dueReply decode json state d with
    | none => simp [dueReplies, dueConnections, hdue, Service.grown_nil]
    | some reply => simp [dueReplies, dueConnections, hdue, Service.grown]
  | accept outcome =>
    obtain ⟨connection, rfl⟩ := h
    simp [dueReplies, dueConnections, Service.grown]

theorem step_of_not_survivable {service : Service} {event : ServiceEvent}
    (h : ¬ Survivable decode json state event) : (Service.step decode json state service event).Stopped := by
  by_cases haccepting : service.accepting.isSome = true
  · unfold Service.step
    rw [if_pos haccepting]
    exact Or.inr haccepting
  unfold Service.step
  rw [if_neg haccepting]
  cases event with
  | datagram d =>
    by_cases hdiscovery : service.discovery.isSome = true
    · exact Or.inl (by simp only [hdiscovery, ↓reduceIte])
    · obtain ⟨err, hturn⟩ := discoveryTurn_of_not_survivable h
      exact Or.inl (by simp only [if_neg hdiscovery, hturn, Option.isSome_some])
  | accept outcome =>
    cases outcome with
    | error err => exact Or.inr rfl
    | ok connection => exact absurd ⟨connection, rfl⟩ h

theorem step_of_stopped {service : Service} (h : service.Stopped) (event : ServiceEvent) :
    (Service.step decode json state service event).Stopped := by
  by_cases hsurvivable : Survivable decode json state event
  · by_cases haccepting : service.accepting.isSome = true
    · unfold Service.step
      rw [if_pos haccepting]
      exact h
    · have hdiscovery : service.discovery.isSome = true := h.resolve_right haccepting
      unfold Service.step
      rw [if_neg haccepting]
      cases event with
      | datagram d => simpa only [hdiscovery, ↓reduceIte] using h
      | accept outcome =>
        obtain ⟨connection, rfl⟩ := hsurvivable
        exact Or.inl hdiscovery
  · exact step_of_not_survivable hsurvivable

/-! ### All events -/

theorem foldl_of_stopped : ∀ (events : List ServiceEvent) {service : Service}, service.Stopped →
    (events.foldl (Service.step decode json state) service).Stopped
  | [], _, h => h
  | event :: events, _, h => foldl_of_stopped events (step_of_stopped h event)

theorem foldl_of_survivable : ∀ (events : List ServiceEvent) {service : Service}, ¬ service.Stopped →
    (∀ event ∈ events, Survivable decode json state event) →
      events.foldl (Service.step decode json state) service =
        service.grown (dueReplies decode json state events) (dueConnections events)
  | [], service, _, _ => (Service.grown_nil service).symm
  | event :: events, service, hrunning, h => by
    rw [List.forall_mem_cons] at h
    have hgrown : ∀ replies spawned, ¬ (service.grown replies spawned).Stopped := fun _ _ => hrunning
    rw [List.foldl_cons, step_of_survivable hrunning h.1, foldl_of_survivable events (hgrown _ _) h.2,
      Service.grown_grown, dueReplies, dueReplies, dueConnections, dueConnections, ← List.filterMap_append,
      ← List.filterMap_append]
    rfl

theorem foldl_of_not_survivable : ∀ (events : List ServiceEvent) {service : Service} {event : ServiceEvent},
    event ∈ events → ¬ Survivable decode json state event →
      (events.foldl (Service.step decode json state) service).Stopped
  | e :: events, service, event, hmem, h => by
    rw [List.foldl_cons]
    rcases List.mem_cons.mp hmem with rfl | hmem
    · exact foldl_of_stopped events (step_of_not_survivable h)
    · exact foldl_of_not_survivable events hmem h

variable (decode json state)

/-- **The service loops run on exactly while nothing fails.** For any sequence of
datagrams, from anybody and with any bytes, and of `accept`s: both loops still
run at its end, with every valid probe answered unless its send failed and every
connection accepted handled, if and only if the reply to every valid probe could
be encoded and sent and no `accept` failed. How connections fare does not matter. -/
theorem service_runs_iff (events : List ServiceEvent) :
    Serving decode json state events ↔ ∀ event ∈ events, Survivable decode json state event := by
  have hstart : ¬ Service.Stopped ⟨none, none, [], []⟩ := by simp [Service.Stopped]
  constructor
  · intro h
    by_contra hfault
    simp only [not_forall] at hfault
    obtain ⟨event, hmem, hevent⟩ := hfault
    have hstopped : (Service.run decode json state events).Stopped := foldl_of_not_survivable events hmem hevent
    rw [Service.Stopped, h.discovery, h.accepting] at hstopped
    simp at hstopped
  · intro h
    have hrun : Service.run decode json state events = _ := foldl_of_survivable events hstart h
    exact ⟨by rw [hrun]; rfl, by rw [hrun]; rfl, by rw [hrun]; rfl, by rw [hrun]; rfl⟩

end

/-! ### A reply that cannot be sent -/

/-- A daemon. -/
def testState : ServerState where
  serverId := str "rsdbd"
  deviceName := str "device"
  platform := str "linux"
  shellPath := str "/bin/sh"
  execTimeoutSecs := 60
  tcpPort := 27101

/-- A parser that knows the probe with nonce 7. -/
def probeParser (bytes : Bytes) : Except Str DiscoveryRequest :=
  if bytes = (DiscoveryRequest.probe 7).json then .ok (.probe 7) else .error (str "expected value")

/-- A probe from a peer. -/
def probeFrom (peer : Str) (sent : Except IoError Unit) : Datagram :=
  ⟨discoveryMagic ++ (DiscoveryRequest.probe 7).json, peer, sent⟩

/-- One probe from an address that cannot be answered, and the next one gets no
reply; one `accept` that fails, and the daemon accepts no more. -/
theorem service_stops :
    ¬ Serving probeParser DiscoveryResponse.json testState
        [.datagram (probeFrom (str "10.0.0.1:0") (.error (IoErrorKind.invalidInput.toError))),
          .datagram (probeFrom (str "10.0.0.2:5000") (.ok ()))] ∧
      ¬ Serving probeParser DiscoveryResponse.json testState
        [.accept (.error (IoErrorKind.other.toError)),
          .accept (.ok ⟨str "10.0.0.2:5000", .ok (), .ok ()⟩)] := by
  refine ⟨fun h => ?_, fun h => ?_⟩
  · have hstopped : (Service.run probeParser DiscoveryResponse.json testState
        [.datagram (probeFrom (str "10.0.0.1:0") (.error (IoErrorKind.invalidInput.toError))),
          .datagram (probeFrom (str "10.0.0.2:5000") (.ok ()))]).discovery.isSome = true := by decide +kernel
    rw [h.discovery] at hstopped
    cases hstopped
  · exact absurd h.accepting (by simp [Service.run, Service.step])

end Daemon

end Rsdb
