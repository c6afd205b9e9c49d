/-
# Discovery on the host

`discover_targets_at_with_callback` sends a probe to every destination, each from
a socket and a task of its own, for as long as the timeout. A task gives a target
for every response to its probe that is the first from its server, and the loop
gathers them under the name of the device and its address, calls `on_target` for
what is new and joins the tasks that have ended. What a target has to tell is said by
the response and the peer alone (`DiscoveredTarget.Tells`, `Sent.device`).

The tasks, the channel and the loop take their steps in any order. Where no task
fails, the loop does not stop before every task has been joined and the channel
is empty, and then has one target for each key of what was accepted and has called
`on_target` once for it (`discover_targets_exactly_once`); and it can always come
to that end.
-/
import Rsdb.Lib.IpText
import Rsdb.Lib.TaskSet
import Rsdb.Proto.Discovery

namespace Rsdb

namespace Client

/-- What is told of a daemon that has answered. -/
structure DiscoveredTarget where
  serverId : Str
  deviceName : Str
  addr : SocketAddr
  platform : Str
  protocolVersion : ℕ
  features : List Str
  deriving DecidableEq

/-- A datagram that `recv_from` gives a task before its deadline. -/
structure Packet where
  bytes : Bytes
  peer : SocketAddr

/-- What the loop of `discover_targets_once` keeps. -/
structure Probe where
  nonce : ℕ
  discovered : Std.TreeMap Str Unit

/-- `format!("{}@{}", name, addr)`. -/
def atKey (name : Str) (addr : SocketAddr) : Str := name ++ str "@" ++ addr.print

/-- The key of `discover_targets_once`. -/
def DiscoveredTarget.serverKey (target : DiscoveredTarget) : Str := atKey target.serverId target.addr

/-- The key of `discover_targets_at_with_callback`. -/
def DiscoveredTarget.deviceKey (target : DiscoveredTarget) : Str := atKey target.deviceName target.addr

/-- The receive buffer: a longer datagram is cut. -/
def probeBufferLen : ℕ := maxDiscoveryPayloadLen + discoveryMagic.length

/-- The target that is sent for a response. -/
def targetOf (response : DiscoveryResponse) (peer : SocketAddr) : DiscoveredTarget :=
  ⟨response.serverId, response.deviceName, SocketAddr.new peer.ip (UInt16.ofNat response.tcpPort), response.platform,
    response.protocolVersion, response.features⟩

section

variable (decode : Bytes → Except Str DiscoveryResponse)

/-- One turn of the loop of `discover_targets_once`, with what it sends. -/
def Probe.turn (probe : Probe) (packet : Packet) : Probe × List DiscoveredTarget :=
  match decodeDiscoveryMessage decode (packet.bytes.take probeBufferLen) with
  | .error _ => (probe, [])
  | .ok response =>
    if response.nonce ≠ probe.nonce then (probe, [])
    else
      let target := targetOf response packet.peer
      ({ probe with discovered := probe.discovered.insert target.serverKey () },
        if target.serverKey ∈ probe.discovered then [] else [target])

/-- How a task has ended: what `discover_targets_once` has returned, or why the
task could not be joined. -/
abbrev ProbeEnd := Except Str (Except AnyhowError Unit)

/-- The loop: the tasks and their channel, `discovered`, the calls of `on_target`
and what has been returned. -/
structure Discovering where
  tasks : TaskSet Probe DiscoveredTarget ProbeEnd
  discovered : Std.TreeMap Str DiscoveredTarget
  called : List DiscoveredTarget
  outcome : Option (Except AnyhowError (List DiscoveredTarget))

/-- A task does something, `rx.recv()` is ready, or a task has been joined. -/
inductive DiscoverEvent where
  | task (work : Work Packet ProbeEnd)
  | received
  | joined (i : ℕ)

/-- All probes have been spawned, and the loop's own sender has been dropped. -/
def Discovering.start (nonces : List ℕ) : Discovering :=
  ⟨.spawned (nonces.map fun nonce => ⟨nonce, ∅⟩), ∅, [], none⟩

/-- A target comes out of the channel. -/
def Discovering.gather (s : Discovering) (target : DiscoveredTarget) : Discovering :=
  { s with
    discovered := s.discovered.insert target.deviceKey target
    called := if target.deviceKey ∈ s.discovered then s.called else s.called ++ [target] }

/-- What happens at an event, if it can happen: nothing after the return. -/
def Discovering.step (s : Discovering) (event : DiscoverEvent) : Option Discovering :=
  if s.outcome.isSome then none
  else
    match event with
    | .task work =>
      match s.tasks.work (Probe.turn decode) work with
      | some tasks => some { s with tasks := tasks }
      | none => none
    | .received =>
      match s.tasks.recv with
      | some (some target, tasks) => some ({ s with tasks := tasks }.gather target)
      | some (none, tasks) =>
        if tasks.isEmpty then some { s with outcome := some (.ok (s.discovered.toList.map (·.2)))}
        else some { s with tasks := tasks }
      | none => none
    | .joined i =>
      match s.tasks.join i with
      | some (.ok (.ok ()), tasks) => some { s with tasks := tasks }
      | some (.ok (.error err), tasks) => some { s with tasks := tasks, outcome := some (.error err) }
      | some (.error message, tasks) =>
        some { s with
          tasks := tasks
          outcome := some (.error ((AnyhowError.bail message).context (str "discovery task failed"))) }
      | none => none

/-- The events in turn. -/
def Discovering.run (s : Discovering) (events : List DiscoverEvent) : Option Discovering :=
  events.foldlM (Discovering.step decode) s

/-! ### What discovery is for -/

/-- A response, and where it has come from. -/
structure Sent where
  response : DiscoveryResponse
  peer : SocketAddr

/-- Where the daemon listens: the address the response has come from, with the port it
names. -/
def Sent.address (sent : Sent) : SocketAddr := SocketAddr.new sent.peer.ip (UInt16.ofNat sent.response.tcpPort)

/-- `server_id@address`. -/
def Sent.server (sent : Sent) : Str := sent.response.serverId ++ str "@" ++ sent.address.print

/-- `device_name@address`. -/
def Sent.device (sent : Sent) : Str := sent.response.deviceName ++ str "@" ++ sent.address.print

/-- The target tells what has been sent. -/
structure DiscoveredTarget.Tells (target : DiscoveredTarget) (sent : Sent) : Prop where
  serverId : target.serverId = sent.response.serverId
  deviceName : target.deviceName = sent.response.deviceName
  ip : target.addr.ip = sent.peer.ip
  port : target.addr.port = UInt16.ofNat sent.response.tcpPort
  platform : target.platform = sent.response.platform
  protocolVersion : target.protocolVersion = sent.response.protocolVersion
  features : target.features = sent.response.features

/-- A response to the probe. -/
def Answers (nonce : ℕ) (packet : Packet) (sent : Sent) : Prop :=
  decodeDiscoveryMessage decode (packet.bytes.take probeBufferLen) = .ok sent.response ∧
    sent.response.nonce = nonce ∧ sent.peer = packet.peer

/-- A response on a socket, the first from its server. -/
def AcceptedOn (nonce : ℕ) (packets : List Packet) (sent : Sent) : Prop :=
  ∃ before packet after, packets = before ++ packet :: after ∧ Answers decode nonce packet sent ∧
    ∀ earlier ∈ before, ∀ other, Answers decode nonce earlier other → other.server ≠ sent.server

end

/-- What the tasks have done. -/
def works (events : List DiscoverEvent) : List (Work Packet ProbeEnd) :=
  events.filterMap fun
    | .task work => some work
    | _ => none

/-- A response that one of the probes accepts. -/
def Accepted (decode : Bytes → Except Str DiscoveryResponse) (nonces : List ℕ) (events : List DiscoverEvent)
    (sent : Sent) : Prop :=
  ∃ i nonce, nonces[i]? = some nonce ∧ AcceptedOn decode nonce (inputsTo i (works events)) sent

/-- The targets tell of one response for each `device_name@address` among those that are
accepted, and of nothing else. -/
def OneForEach (accepted : Sent → Prop) (targets : List DiscoveredTarget) : Prop :=
  ∃ told : List Sent, List.Forall₂ (fun sent target => target.Tells sent) told targets ∧
    (∀ sent ∈ told, accepted sent) ∧ (told.map Sent.device).Nodup ∧
      ∀ sent, accepted sent → sent.device ∈ told.map Sent.device

/-- One target with the property for each of their keys. -/
structure OnePerKey (p : DiscoveredTarget → Prop) (targets : List DiscoveredTarget) : Prop where
  sound : ∀ target ∈ targets, p target
  once : (targets.map DiscoveredTarget.deviceKey).Nodup
  every : ∀ target, p target → target.deviceKey ∈ targets.map DiscoveredTarget.deviceKey

/-- No task fails. -/
def NoneFails (events : List DiscoverEvent) : Prop := ∀ i r, .task (.ends i r) ∈ events → r = .ok (.ok ())

section

variable {decode : Bytes → Except Str DiscoveryResponse} {nonces : List ℕ} {events : List DiscoverEvent}
  {received : List DiscoveredTarget} {s s' : Discovering}

/-! ### What a task accepts -/

/-- The target of what has been sent. -/
def Sent.target (sent : Sent) : DiscoveredTarget := targetOf sent.response sent.peer

theorem Sent.tells (sent : Sent) : sent.target.Tells sent := by
  have hip : ∀ (ip : IpAddr) (port : UInt16), (SocketAddr.new ip port).ip = ip ∧ (SocketAddr.new ip port).port = port := by
    rintro (ip | ip) port <;> exact ⟨rfl, rfl⟩
  exact ⟨rfl, rfl, (hip _ _).1, (hip _ _).2, rfl, rfl, rfl⟩

/-- A datagram is no response to the probe, or it is the one. -/
theorem turn_cases (probe : Probe) (packet : Packet) :
    ((∀ sent, ¬ Answers decode probe.nonce packet sent) ∧ probe.turn decode packet = (probe, [])) ∨
      ∃ sent, (∀ other, Answers decode probe.nonce packet other ↔ other = sent) ∧
        probe.turn decode packet = ({ probe with discovered := probe.discovered.insert sent.server () },
          if sent.server ∈ probe.discovered then [] else [sent.target]) := by
  unfold Probe.turn
  cases hdecode : decodeDiscoveryMessage decode (packet.bytes.take probeBufferLen) with
  | error err =>
    refine Or.inl ⟨?_, rfl⟩
    rintro sent ⟨hresponse, -⟩
    rw [hdecode] at hresponse
    cases hresponse
  | ok response =>
    by_cases hnonce : response.nonce = probe.nonce
    · refine Or.inr ⟨⟨response, packet.peer⟩, fun other => ⟨?_, ?_⟩, ?_⟩
      · rintro ⟨hresponse, -, hpeer⟩
        rw [hdecode] at hresponse
        cases other
        rw [Sent.mk.injEq]
        exact ⟨(Except.ok.inj hresponse).symm, hpeer⟩
      · rintro rfl
        exact ⟨hdecode, hnonce, rfl⟩
      · dsimp only
        rw [if_neg (not_not.mpr hnonce)]
        rfl
    · refine Or.inl ⟨?_, if_pos hnonce⟩
      rintro sent ⟨hresponse, hnonce', -⟩
      rw [hdecode] at hresponse
      rw [Except.ok.inj hresponse] at hnonce
      exact hnonce hnonce'

theorem acceptedOn_nil (nonce : ℕ) (sent : Sent) : ¬ AcceptedOn decode nonce [] sent := by
  rintro ⟨before, packet, after, h, -⟩
  exact absurd h.symm (List.append_ne_nil_of_right_ne_nil _ (List.cons_ne_nil _ _))

/-- What is accepted is the first response, or it is accepted later and has
another key. -/
theorem acceptedOn_cons (nonce : ℕ) (packet : Packet) (packets : List Packet) (sent : Sent) :
    AcceptedOn decode nonce (packet :: packets) sent ↔
      Answers decode nonce packet sent ∨
        (∀ other, Answers decode nonce packet other → other.server ≠ sent.server) ∧
          AcceptedOn decode nonce packets sent := by
  constructor
  · rintro ⟨before, packet', after, hsplit, hanswers, hfirst⟩
    cases before with
    | nil =>
      obtain ⟨rfl, rfl⟩ := List.cons.inj hsplit
      exact Or.inl hanswers
    | cons b before =>
      obtain ⟨rfl, rfl⟩ := List.cons.inj hsplit
      refine Or.inr ⟨hfirst _ (List.mem_cons_self ..), before, packet', after, rfl, hanswers, fun earlier hearlier => ?_⟩
      exact hfirst earlier (List.mem_cons_of_mem _ hearlier)
  · rintro (hanswers | ⟨hother, before, packet', after, rfl, hanswers, hfirst⟩)
    · exact ⟨[], packet, packets, rfl, hanswers, fun _ h => nomatch h⟩
    · refine ⟨packet :: before, packet', after, rfl, hanswers, fun earlier hearlier => ?_⟩
      rcases List.mem_cons.mp hearlier with rfl | hearlier
      · exact hother
      · exact hfirst earlier hearlier

/-- **A task gives the targets of what is accepted on its socket** and is not yet in its
map. -/
theorem mem_outputs_iff : ∀ (packets : List Packet) (probe : Probe) (target : DiscoveredTarget),
    target ∈ TaskSet.outputs (Probe.turn decode) probe packets ↔
      ∃ sent : Sent, sent.target = target ∧ sent.server ∉ probe.discovered ∧ AcceptedOn decode probe.nonce packets sent
  | [], probe, target => ⟨fun h => (nomatch h), fun ⟨sent, _, _, h⟩ => absurd h (acceptedOn_nil probe.nonce sent)⟩
  | packet :: packets, probe, target => by
    rw [TaskSet.outputs, List.mem_append, mem_outputs_iff packets]
    simp only [acceptedOn_cons]
    rcases @turn_cases decode probe packet with ⟨hnone, hturn⟩ | ⟨first, hfirst, hturn⟩
    · rw [hturn]
      simp only [hnone, List.not_mem_nil, false_or, false_implies, implies_true, true_and]
    · rw [hturn]
      simp only [hfirst, forall_eq, Std.TreeMap.mem_insert, Std.compare_eq_iff_eq, not_or]
      constructor
      · rintro (hnow | ⟨sent, rfl, ⟨hne, hnew⟩, hlater⟩)
        · split at hnow
          · exact absurd hnow List.not_mem_nil
          · rename_i hnew
            exact ⟨first, (List.mem_singleton.mp hnow).symm, hnew, Or.inl rfl⟩
        · exact ⟨sent, rfl, hnew, Or.inr ⟨hne, hlater⟩⟩
      · rintro ⟨sent, rfl, hnew, rfl | ⟨hne, hlater⟩⟩
        · exact Or.inl (by rw [if_neg hnew]; exact List.mem_singleton.mpr rfl)
        · exact Or.inr ⟨sent, rfl, ⟨hne, hnew⟩, hlater⟩

/-! ### What the loop gathers -/

/-- What has been read is what the loop has gathered, and called for. -/
structure Gathered (received : List DiscoveredTarget) (s : Discovering) : Prop where
  called : OnePerKey (· ∈ received) s.called
  value : ∀ key target, s.discovered[key]? = some target → target ∈ received ∧ target.deviceKey = key
  key : ∀ target ∈ received, target.deviceKey ∈ s.discovered

theorem gathered_start (nonces : List ℕ) : Gathered [] (.start nonces) where
  called := ⟨fun _ h => (nomatch h), List.nodup_nil, fun _ h => (nomatch h)⟩
  value key target h := by
    rw [Discovering.start, Std.TreeMap.getElem?_emptyc] at h
    cases h
  key _ h := nomatch h

theorem Gathered.discovered (h : Gathered received s) :
    OnePerKey (· ∈ received) (s.discovered.toList.map (·.2)) where
  sound target htarget := by
    obtain ⟨⟨key, target⟩, hmem, rfl⟩ := List.mem_map.mp htarget
    exact (h.value key target (Std.TreeMap.mem_toList_iff_getElem?_eq_some.mp hmem)).1
  once := by
    have hkeys : (s.discovered.toList.map (·.2)).map DiscoveredTarget.deviceKey = s.discovered.toList.map (·.1) := by
      rw [List.map_map]
      apply List.map_congr_left
      rintro ⟨key, target⟩ hmem
      exact (h.value key target (Std.TreeMap.mem_toList_iff_getElem?_eq_some.mp hmem)).2
    have hdistinct := Std.TreeMap.distinct_keys_toList (t := s.discovered)
    rw [hkeys, List.Nodup, List.pairwise_map]
    exact hdistinct.imp fun hne heq => hne (Std.compare_eq_iff_eq.mpr heq)
  every target htarget := by
    have hsome := Std.TreeMap.mem_iff_isSome_getElem?.mp (h.key target htarget)
    obtain ⟨other, hother⟩ := Option.isSome_iff_exists.mp hsome
    rw [← (h.value _ other hother).2]
    have hmem : (target.deviceKey, other) ∈ s.discovered.toList := Std.TreeMap.mem_toList_iff_getElem?_eq_some.mpr hother
    exact List.mem_map_of_mem (List.mem_map_of_mem hmem)

theorem Gathered.gather (h : Gathered received s) (target : DiscoveredTarget) :
    Gathered (received ++ [target]) (s.gather target) := by
  have hseen : target.deviceKey ∈ s.discovered ↔ target.deviceKey ∈ s.called.map DiscoveredTarget.deviceKey := by
    constructor
    · intro hmem
      obtain ⟨other, hother⟩ := Option.isSome_iff_exists.mp (Std.TreeMap.mem_iff_isSome_getElem?.mp hmem)
      obtain ⟨hreceived, hkey⟩ := h.value _ other hother
      rw [← hkey]
      exact h.called.every other hreceived
    · intro hmem
      obtain ⟨other, hother, hkey⟩ := List.mem_map.mp hmem
      rw [← hkey]
      exact h.key other (h.called.sound other hother)
  refine ⟨?_, fun key other hvalue => ?_, fun other hother => ?_⟩
  · unfold Discovering.gather
    dsimp only
    by_cases hold : target.deviceKey ∈ s.discovered
    · rw [if_pos hold]
      refine ⟨fun t ht => List.mem_append_left _ (h.called.sound t ht), h.called.once, fun t ht => ?_⟩
      rcases List.mem_append.mp ht with ht | ht
      · exact h.called.every t ht
      · rw [List.mem_singleton.mp ht]
        exact hseen.mp hold
    · rw [if_neg hold]
      refine ⟨fun t ht => ?_, ?_, fun t ht => ?_⟩
      · rcases List.mem_append.mp ht with ht | ht
        · exact List.mem_append_left _ (h.called.sound t ht)
        · exact List.mem_append_right _ ht
      · rw [List.map_append, List.nodup_append']
        refine ⟨h.called.once, List.nodup_singleton _, ?_⟩
        rw [List.map_singleton, List.disjoint_singleton]
        exact fun hmem => hold (hseen.mpr hmem)
      · rw [List.map_append]
        rcases List.mem_append.mp ht with ht | ht
        · exact List.mem_append_left _ (h.called.every t ht)
        · rw [List.mem_singleton.mp ht]
          exact List.mem_append_right _ (List.mem_singleton.mpr rfl)
  · rw [Discovering.gather, Std.TreeMap.getElem?_insert] at hvalue
    split at hvalue
    · obtain rfl := Option.some.inj hvalue
      exact ⟨List.mem_append_right _ (List.mem_singleton.mpr rfl), Std.compare_eq_iff_eq.mp ‹_›⟩
    · obtain ⟨hreceived, hkey⟩ := h.value key other hvalue
      exact ⟨List.mem_append_left _ hreceived, hkey⟩
  · rw [Discovering.gather, Std.TreeMap.mem_insert]
    rcases List.mem_append.mp hother with hother | hother
    · exact Or.inr (h.key other hother)
    · rw [List.mem_singleton.mp hother]
      exact Or.inl (Std.compare_eq_iff_eq.mpr rfl)

/-! ### One step -/

/-- All that can happen. -/
theorem step_cases {event : DiscoverEvent} (h : s.step decode event = some s') :
    s.outcome = none ∧
      ((∃ work tasks, event = .task work ∧ s.tasks.work (Probe.turn decode) work = some tasks ∧
          s' = { s with tasks := tasks }) ∨
        (∃ target tasks, event = .received ∧ s.tasks.recv = some (some target, tasks) ∧
          s' = { s with tasks := tasks }.gather target) ∨
        (event = .received ∧ s.tasks.queue = [] ∧ s.tasks.isEmpty = true ∧
          s' = { s with outcome := some (.ok (s.discovered.toList.map (·.2))) }) ∨
        (event = .received ∧ s' = s) ∨
        ∃ i r tasks, event = .joined i ∧ s.tasks.join i = some (r, tasks) ∧
          (r = .ok (.ok ()) → s' = { s with tasks := tasks })) := by
  unfold Discovering.step at h
  split at h
  · cases h
  · rename_i hsome
    refine ⟨by simpa using hsome, ?_⟩
    cases event with
    | task work =>
      dsimp only at h
      split at h
      · exact Or.inl ⟨work, _, rfl, ‹_›, (Option.some.inj h).symm⟩
      · cases h
    | received =>
      dsimp only at h
      split at h
      · exact Or.inr (Or.inl ⟨_, _, rfl, ‹_›, (Option.some.inj h).symm⟩)
      · rename_i tasks hrecv
        obtain ⟨rfl, hqueue⟩ := TaskSet.recv_none hrecv
        split at h
        · exact Or.inr (Or.inr (Or.inl ⟨rfl, hqueue, ‹_›, (Option.some.inj h).symm⟩))
        · exact Or.inr (Or.inr (Or.inr (Or.inl ⟨rfl, (Option.some.inj h).symm⟩)))
      · cases h
    | joined i =>
      refine Or.inr (Or.inr (Or.inr (Or.inr ?_)))
      dsimp only at h
      split at h
      · exact ⟨i, _, _, rfl, ‹_›, fun _ => (Option.some.inj h).symm⟩
      · exact ⟨i, .ok (.error _), _, rfl, ‹_›, fun hr => (nomatch hr)⟩
      · exact ⟨i, .error _, _, rfl, ‹_›, fun hr => (nomatch hr)⟩
      · cases h

/-- The probes as they begin. -/
def probes (nonces : List ℕ) : List Probe := nonces.map fun nonce => ⟨nonce, ∅⟩

/-- No task that has ended has failed. -/
def Fine (tasks : List (Task Probe ProbeEnd)) : Prop :=
  ∀ (i : ℕ) (r : ProbeEnd), tasks[i]? = some (.ended r) → r = .ok (.ok ())

theorem Fine.set {tasks : List (Task Probe ProbeEnd)} (h : Fine tasks) (i : ℕ) {t : Task Probe ProbeEnd}
    (ht : ∀ r, t = .ended r → r = .ok (.ok ())) : Fine (tasks.set i t) := by
  intro j r hj
  rw [List.getElem?_set] at hj
  split at hj
  · split at hj
    · exact ht r (Option.some.inj hj)
    · cases hj
  · exact h j r hj

/-- What holds as long as no task has failed. -/
structure Invariant (decode : Bytes → Except Str DiscoveryResponse) (nonces : List ℕ) (events : List DiscoverEvent)
    (received : List DiscoveredTarget) (s : Discovering) : Prop where
  account : s.tasks.Account (Probe.turn decode) (probes nonces) (works events) received
  gathered : Gathered received s
  fine : Fine s.tasks.tasks
  stopped : ∀ outcome, s.outcome = some outcome →
    outcome = .ok (s.discovered.toList.map (·.2)) ∧ s.tasks.isEmpty = true ∧ s.tasks.queue = []

theorem invariant_start (decode : Bytes → Except Str DiscoveryResponse) (nonces : List ℕ) :
    Invariant decode nonces [] [] (.start nonces) where
  account := TaskSet.account_spawned (probes nonces)
  gathered := gathered_start nonces
  fine i r h := by
    simp only [Discovering.start, TaskSet.spawned, List.map_map, List.getElem?_map, Option.map_eq_some_iff] at h
    obtain ⟨nonce, -, h⟩ := h
    cases h
  stopped _ h := nomatch h

theorem works_concat_task (events : List DiscoverEvent) (work : Work Packet ProbeEnd) :
    works (events ++ [.task work]) = works events ++ [work] := by
  rw [works, List.filterMap_append]
  rfl

theorem works_concat_received (events : List DiscoverEvent) : works (events ++ [.received]) = works events := by
  rw [works, List.filterMap_append]
  exact List.append_nil _

theorem works_concat_joined (events : List DiscoverEvent) (i : ℕ) : works (events ++ [.joined i]) = works events := by
  rw [works, List.filterMap_append]
  exact List.append_nil _

theorem Fine.work {tasks tasks' : TaskSet Probe DiscoveredTarget ProbeEnd} {work : Work Packet ProbeEnd}
    (h : Fine tasks.tasks) (hwork : tasks.work (Probe.turn decode) work = some tasks')
    (hfails : NoneFails [.task work]) : Fine tasks'.tasks := by
  cases work with
  | input i a =>
    obtain ⟨w, -, rfl⟩ := TaskSet.work_input hwork
    exact h.set i fun r hr => (nomatch hr)
  | ends i r =>
    obtain ⟨w, -, rfl⟩ := TaskSet.work_ends hwork
    refine h.set i fun r' hr => ?_
    obtain rfl := Task.ended.inj hr
    exact hfails i r (List.mem_singleton.mpr rfl)

/-- **What one step preserves.** -/
theorem Invariant.step {event : DiscoverEvent} (h : Invariant decode nonces events received s)
    (hstep : s.step decode event = some s') (hfails : NoneFails [event]) :
    ∃ received', Invariant decode nonces (events ++ [event]) received' s' := by
  obtain ⟨hrunning, hcases⟩ := step_cases hstep
  have hstopped : ∀ outcome, s.outcome ≠ some outcome := by
    intro outcome
    rw [hrunning]
    exact (Option.some_ne_none outcome).symm
  rcases hcases with ⟨work, tasks, rfl, hwork, rfl⟩ | ⟨target, tasks, rfl, hrecv, rfl⟩ | ⟨rfl, hqueue, hempty, rfl⟩ |
    ⟨rfl, rfl⟩ | ⟨i, r, tasks, rfl, hjoin, hfine⟩
  · refine ⟨received, ?_, ⟨h.gathered.called, h.gathered.value, h.gathered.key⟩, h.fine.work hwork hfails,
      fun outcome ho => absurd ho (hstopped outcome)⟩
    rw [works_concat_task]
    exact h.account.work hwork
  · have hgathered : Gathered received { s with tasks := tasks } :=
      ⟨h.gathered.called, h.gathered.value, h.gathered.key⟩
    refine ⟨received ++ [target], ?_, hgathered.gather target, ?_, fun outcome ho => absurd ho (hstopped outcome)⟩
    · rw [works_concat_received]
      exact h.account.recv hrecv
    · obtain ⟨-, htasks⟩ := TaskSet.recv_some hrecv
      have hsame : Fine tasks.tasks := by
        rw [htasks]
        exact h.fine
      exact hsame
  · refine ⟨received, ?_, ⟨h.gathered.called, h.gathered.value, h.gathered.key⟩, h.fine, fun outcome ho => ?_⟩
    · rw [works_concat_received]
      exact h.account
    · exact ⟨(Option.some.inj ho).symm, hempty, hqueue⟩
  · refine ⟨received, ?_, h.gathered, h.fine, h.stopped⟩
    rw [works_concat_received]
    exact h.account
  · obtain ⟨hended, htasks⟩ := TaskSet.join_eq_some hjoin
    obtain rfl := hfine (h.fine i r hended)
    refine ⟨received, ?_, ⟨h.gathered.called, h.gathered.value, h.gathered.key⟩, ?_,
      fun outcome ho => absurd ho (hstopped outcome)⟩
    · rw [works_concat_joined]
      exact h.account.join hjoin
    · have hset : Fine tasks.tasks := by
        rw [htasks]
        exact h.fine.set i fun r hr => (nomatch hr)
      exact hset

theorem run_concat (s : Discovering) (events : List DiscoverEvent) (event : DiscoverEvent) :
    s.run decode (events ++ [event]) = (s.run decode events).bind fun s' => s'.step decode event := by
  rw [Discovering.run, List.foldlM_append]
  simp only [List.foldlM_cons, List.foldlM_nil, bind_pure]
  rfl

/-- **What a run preserves.** -/
theorem invariant_run (hrun : (Discovering.start nonces).run decode events = some s) (hfails : NoneFails events) :
    ∃ received, Invariant decode nonces events received s := by
  induction events using List.reverseRecOn generalizing s with
  | nil =>
    obtain rfl : Discovering.start nonces = s := Option.some.inj hrun
    exact ⟨[], invariant_start decode nonces⟩
  | append_singleton events event ih =>
    rw [run_concat] at hrun
    obtain ⟨before, hbefore, hstep⟩ := Option.bind_eq_some_iff.mp hrun
    obtain ⟨received, h⟩ := ih hbefore fun i r hmem => hfails i r (List.mem_append_left _ hmem)
    exact h.step hstep fun i r hmem => hfails i r (List.mem_append_right _ hmem)

/-! ### Where it ends -/

/-- What has been read from an empty channel are the targets of what has been accepted. -/
theorem mem_received_iff (h : Invariant decode nonces events received s) (hqueue : s.tasks.queue = [])
    (target : DiscoveredTarget) :
    target ∈ received ↔ ∃ sent : Sent, sent.target = target ∧ Accepted decode nonces events sent := by
  rw [h.account.mem_received hqueue]
  constructor
  · rintro ⟨i, probe, hprobe, hmem⟩
    rw [probes, List.getElem?_map, Option.map_eq_some_iff] at hprobe
    obtain ⟨nonce, hnonce, rfl⟩ := hprobe
    obtain ⟨sent, htarget, -, haccepted⟩ := (mem_outputs_iff _ _ _).mp hmem
    exact ⟨sent, htarget, i, nonce, hnonce, haccepted⟩
  · rintro ⟨sent, htarget, i, nonce, hnonce, haccepted⟩
    refine ⟨i, ⟨nonce, ∅⟩, ?_, (mem_outputs_iff _ _ _).mpr ⟨sent, htarget, Std.TreeMap.not_mem_emptyc, haccepted⟩⟩
    rw [probes, List.getElem?_map, hnonce, Option.map_some]

/-- One target for each key is one for each `device_name@address`. -/
theorem OnePerKey.oneForEach {p : DiscoveredTarget → Prop} {accepted : Sent → Prop} {targets : List DiscoveredTarget}
    (h : OnePerKey p targets) (hp : ∀ target, p target ↔ ∃ sent : Sent, sent.target = target ∧ accepted sent) :
    OneForEach accepted targets := by
  have htold : ∀ targets : List DiscoveredTarget, (∀ target ∈ targets, p target) →
      ∃ told : List Sent, told.map Sent.target = targets ∧ ∀ sent ∈ told, accepted sent := by
    intro targets
    induction targets with
    | nil => exact fun _ => ⟨[], rfl, fun _ hmem => (nomatch hmem)⟩
    | cons target targets ih =>
      intro hall
      obtain ⟨hfirst, hrest⟩ := List.forall_mem_cons.mp hall
      obtain ⟨sent, hsent, haccepted⟩ := (hp target).mp hfirst
      obtain ⟨told, rfl, haccepts⟩ := ih hrest
      exact ⟨sent :: told, by rw [List.map_cons, hsent], List.forall_mem_cons.mpr ⟨haccepted, haccepts⟩⟩
  obtain ⟨told, rfl, haccepts⟩ := htold targets h.sound
  have hkeys : (told.map Sent.target).map DiscoveredTarget.deviceKey = told.map Sent.device := by
    rw [List.map_map]
    rfl
  refine ⟨told, ?_, haccepts, hkeys ▸ h.once, fun sent hsent => ?_⟩
  · rw [List.forall₂_map_right_iff]
    exact List.forall₂_same.mpr fun sent _ => sent.tells
  · rw [← hkeys]
    exact h.every sent.target ((hp _).mpr ⟨sent, rfl, hsent⟩)

/-- Nothing arrives and no task fails. -/
def Quiet : DiscoverEvent → Prop
  | .task (.input _ _) => False
  | .task (.ends _ r) => r = .ok (.ok ())
  | .received => True
  | .joined _ => True

/-- Before the end a step can be taken that is nearer to it. -/
theorem exists_step (hfine : Fine s.tasks.tasks) (hrunning : s.outcome = none) :
    ∃ event s', s.step decode event = some s' ∧ Quiet event ∧
      (s'.outcome.isSome = true ∨ Fine s'.tasks.tasks ∧ s'.outcome = none ∧ s'.tasks.left < s.tasks.left) := by
  have hnot : ¬ s.outcome.isSome = true := by simp [hrunning]
  rcases TaskSet.exists_turn (Probe.turn decode) (.ok (.ok ())) s.tasks with
    ⟨hempty, hqueue, hrecv⟩ | ⟨i, tasks, hwork, hlt⟩ | ⟨i, r, tasks, hi, hjoin, hlt⟩ | ⟨target, tasks, hrecv, hlt⟩
  · refine ⟨.received, { s with outcome := some (.ok (s.discovered.toList.map (·.2))) }, ?_, trivial, Or.inl rfl⟩
    unfold Discovering.step
    simp only [if_neg hnot, hrecv, if_pos hempty]
  · have hnext : Fine tasks.tasks := by
      obtain ⟨w, -, rfl⟩ := TaskSet.work_ends hwork
      exact hfine.set i fun r hr => (Task.ended.inj hr).symm
    refine ⟨.task (.ends i (.ok (.ok ()))), { s with tasks := tasks }, ?_, rfl, Or.inr ⟨hnext, hrunning, hlt⟩⟩
    unfold Discovering.step
    simp only [if_neg hnot, hwork]
  · obtain rfl := hfine i r hi
    have hnext : Fine tasks.tasks := by
      obtain ⟨-, rfl⟩ := TaskSet.join_eq_some hjoin
      exact hfine.set i fun r hr => (nomatch hr)
    refine ⟨.joined i, { s with tasks := tasks }, ?_, trivial, Or.inr ⟨hnext, hrunning, hlt⟩⟩
    unfold Discovering.step
    simp only [if_neg hnot, hjoin]
  · have hnext : Fine tasks.tasks := by
      obtain ⟨-, htasks⟩ := TaskSet.recv_some hrecv
      rw [htasks]
      exact hfine
    refine ⟨.received, { s with tasks := tasks }.gather target, ?_, trivial, Or.inr ⟨hnext, hrunning, hlt⟩⟩
    unfold Discovering.step
    simp only [if_neg hnot, hrecv]

/-- It can come to its end with what has arrived. -/
theorem exists_end : ∀ (n : ℕ) (s : Discovering), s.tasks.left < n → Fine s.tasks.tasks → s.outcome = none →
    ∃ more s', s.run decode more = some s' ∧ (∀ event ∈ more, Quiet event) ∧ s'.outcome.isSome = true
  | 0, _, h, _, _ => absurd h (Nat.not_lt_zero _)
  | n + 1, s, h, hfine, hrunning => by
    obtain ⟨event, s', hstep, hquiet, hend | ⟨hfine', hrunning', hlt⟩⟩ := @exists_step decode s hfine hrunning
    · refine ⟨[event], s', ?_, fun e he => ?_, hend⟩
      · rw [Discovering.run, List.foldlM_cons, hstep]
        rfl
      · rw [List.mem_singleton.mp he]
        exact hquiet
    · obtain ⟨more, s'', hrun, hmore, hend⟩ := exists_end n s' (by omega) hfine' hrunning'
      refine ⟨event :: more, s'', ?_, fun e he => ?_, hend⟩
      · rw [Discovering.run, List.foldlM_cons, hstep]
        exact hrun
      · rcases List.mem_cons.mp he with rfl | he
        · exact hquiet
        · exact hmore e he

/-- **Discovery loses nothing and gives nothing twice.** In every order of what
the tasks, the channel and the loop do, with no task failing: a return comes when
every task has been joined and the channel is empty, with one target for each
`device_name@address` among the responses that were accepted, which tells what the
response says and where it came from, and one call of `on_target` for it. Until then
it can still come to its end. -/
theorem discover_targets_exactly_once (decode : Bytes → Except Str DiscoveryResponse) (nonces : List ℕ)
    (events : List DiscoverEvent) (s : Discovering) (hrun : (Discovering.start nonces).run decode events = some s)
    (hfails : NoneFails events) :
    (∀ outcome, s.outcome = some outcome →
      s.tasks.isEmpty = true ∧ s.tasks.queue = [] ∧
        OneForEach (Accepted decode nonces events) s.called ∧
        ∃ targets, outcome = .ok targets ∧ OneForEach (Accepted decode nonces events) targets) ∧
      (s.outcome = none → ∃ more s', s.run decode more = some s' ∧ (∀ event ∈ more, Quiet event) ∧
        s'.outcome.isSome = true) := by
  obtain ⟨received, h⟩ := invariant_run hrun hfails
  refine ⟨fun outcome hend => ?_, fun hrunning => exists_end _ s (Nat.lt_succ_self _) h.fine hrunning⟩
  obtain ⟨rfl, hempty, hqueue⟩ := h.stopped outcome hend
  have haccepted := mem_received_iff h hqueue
  exact ⟨hempty, hqueue, h.gathered.called.oneForEach haccepted, _, rfl, h.gathered.discovered.oneForEach haccepted⟩

end

/-- The response of one daemon to the probe with this nonce. -/
def deskResponse (nonce : ℕ) : DiscoveryResponse := ⟨nonce, str "rsdbd-1", str "desk", str "Linux", 27101, 1, []⟩

/-- Its datagram. -/
def deskPacket (nonce : ℕ) : Packet :=
  ⟨discoveryMagic ++ (deskResponse nonce).json, .v4 ⟨192, 168, 0, 7⟩ 27101⟩

/-- A parser that knows what it is sent. -/
def decodeDesk (payload : Bytes) : Except Str DiscoveryResponse :=
  if payload = (deskResponse 3).json then .ok (deskResponse 3)
  else if payload = (deskResponse 4).json then .ok (deskResponse 4)
  else .error (str "expected value")

/-- The daemon is reached by both probes and answers the first twice; the channel
is closed before the tasks are joined. -/
def deskEvents : List DiscoverEvent :=
  [.task (.input 0 (deskPacket 3)), .task (.input 1 (deskPacket 4)), .received, .task (.input 0 (deskPacket 3)),
    .task (.input 1 (deskPacket 3)), .task (.ends 1 (.ok (.ok ()))), .received, .task (.ends 0 (.ok (.ok ()))),
    .received, .joined 1, .joined 0, .received]

/-- The daemon as it is found. -/
def deskTarget : DiscoveredTarget :=
  ⟨str "rsdbd-1", str "desk", .v4 ⟨192, 168, 0, 7⟩ 27101, str "Linux", 1, []⟩

theorem discover_targets_desk : ∃ s, (Discovering.start [3, 4]).run decodeDesk deskEvents = some s ∧
    s.outcome = some (.ok [deskTarget]) ∧ s.tasks.isEmpty = true ∧
    OneForEach (Accepted decodeDesk [3, 4] deskEvents) s.called := by
  have houtcome : ((Discovering.start [3, 4]).run decodeDesk deskEvents).map Discovering.outcome =
      some (some (.ok [deskTarget])) := by
    decide +kernel
  obtain ⟨s, hrun, hs⟩ := Option.map_eq_some_iff.mp houtcome
  have hfails : NoneFails deskEvents := by
    intro i r hmem
    simp only [deskEvents, List.mem_cons, DiscoverEvent.task.injEq, Work.ends.injEq, reduceCtorEq, List.not_mem_nil,
      false_or, or_false] at hmem
    rcases hmem with ⟨-, rfl⟩ | ⟨-, rfl⟩
    · rfl
    · rfl
  obtain ⟨hempty, -, hcalled, -⟩ :=
    (discover_targets_exactly_once decodeDesk [3, 4] deskEvents s hrun hfails).1 _ hs
  exact ⟨s, hrun, hs, hempty, hcalled⟩

end Client

end Rsdb
