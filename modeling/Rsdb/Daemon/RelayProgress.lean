/-
# Whether the shells' loop makes progress

A turn of the loop in `handle_pipe_shell` and `handle_pty_shell` is one branch of
its `select!`. The branches of the pipes and of the exit are off once they have
given their last; the branch of the stdin task has no such guard, and a channel
whose sender is gone answers at once, with nothing, as often as it is asked.

What the loop can still be given is `Around`, and `left` counts it. A turn takes
something of that away or leaves the loop, except a turn on the closed channel
(`left_after_lt`). So the loop makes progress exactly where the stdin task does not
end without a message, which it does when the client closes its input
(`relay_progress_iff`).
-/
import Rsdb.Daemon.Shell

namespace Rsdb

namespace Daemon

open Prog Session

/-! ### The stdin task of a terminal -/

/-- What the task hands to the thread that writes to the terminal. -/
inductive PtyInput where
  | data (payload : Bytes)
  | close

/-- What the task that feeds a terminal does. -/
inductive PtyStdinCall where
  /-- `read_stream_frame_into`. -/
  | read
  | send (input : PtyInput)
  /-- Nothing answers this one. -/
  | never

/-- A send fails when the thread has ended. -/
abbrev PtyStdinCall.Answer : PtyStdinCall → Type
  | read => Except ProtocolError (StreamFrameHeader × Bytes)
  | send _ => Bool
  | never => Empty

/-- A part of the task. -/
abbrev PtyStdinProg (α : Type) := Prog PtyStdinCall PtyStdinCall.Answer Empty α

/-- The task closes the terminal's input and ends. -/
def closing (message : Option AnyhowError) : PtyStdinProg (Option AnyhowError) :=
  .call (.send .close) fun _ => .pure message

/-- What was typed goes to the terminal; nothing is not sent. -/
def forward (payload : Bytes) : PtyStdinProg Bool :=
  if payload = [] then .pure true else .call (.send (.data payload)) .pure

/-- The task, with the message it leaves for the loop. `fuel` counts frames. -/
def ptyStdinTask (requestId : UInt32) : ℕ → PtyStdinProg (Option AnyhowError)
  | 0 => .call .never Empty.elim
  | fuel + 1 =>
    .call .read fun
      | .error (.io .unexpectedEof) => closing none
      | .error err => closing (some (.ofProtocol err))
      | .ok (header, payload) =>
        if header.requestId ≠ requestId then
          closing (some (stdinFailure (frameIdMismatch requestId header.requestId)))
        else if header.channel ≠ .stdin then
          closing (some (stdinFailure (unexpectedChannel header.channel)))
        else
          forward payload >>= fun
            | false => .pure none
            | true => if header.eof then closing none else ptyStdinTask requestId fuel

/-! ### What the loop can be given -/

/-- The channel the stdin task reports on: the task runs, it has left a message,
or it has ended and there is no message, or none any more. -/
inductive StdinChannel where
  | alive
  | holding (err : AnyhowError)
  | closed

/-- The reads that are left of each pipe, the channel, and how the stdin task
ends, if it does. -/
structure Around where
  stdout : List Bytes
  stderr : List Bytes
  channel : StdinChannel
  outcome : Option (Option AnyhowError)

namespace Around

/-- The event is what its branch gets: the next read or, when there is no more,
an empty one; the message; or nothing, from a closed channel. -/
def Gives (around : Around) : RelayEvent → Prop
  | .stdout (.ok data) => data = around.stdout.headD []
  | .stderr (.ok data) => data = around.stderr.headD []
  | .stdin (some err) => around.channel = .holding err
  | .stdin none => around.channel = .closed
  | _ => True

/-- What is left around the loop after an event. -/
def after (around : Around) : RelayEvent → Around
  | .stdout (.ok _) => { around with stdout := around.stdout.tail }
  | .stderr (.ok _) => { around with stderr := around.stderr.tail }
  | .stdin _ => { around with channel := .closed }
  | _ => around

/-- The stdin task has ended. -/
def settled (around : Around) : Option AnyhowError → Around
  | some err => { around with channel := .holding err }
  | none => { around with channel := .closed }

end Around

/-- Turns of the loop, with the end of the stdin task among them. -/
inductive Turns : Relay → Around → List RelayEvent → Relay → Around → Prop where
  | here (relay : Relay) (around : Around) : Turns relay around [] relay around
  | settle {relay relay' : Relay} {around around' : Around} {message : Option AnyhowError}
      {es : List RelayEvent} :
      around.channel = .alive → around.outcome = some message →
        Turns relay (around.settled message) es relay' around' → Turns relay around es relay' around'
  | turn {relay relay' : Relay} {around around' : Around} {event : RelayEvent} {es : List RelayEvent} :
      relay.running = true → relay.Enabled true event → around.Gives event → ¬ event.Leaves →
        Turns (relay.after event) (around.after event) es relay' around' →
          Turns relay around (event :: es) relay' around'
  | leave {relay : Relay} {around : Around} {event : RelayEvent} :
      relay.running = true → relay.Enabled true event → around.Gives event → event.Leaves →
        Turns relay around [event] relay around

/-- The turns are turns of the loop. -/
theorem Turns.runs {relay relay' : Relay} {around around' : Around} {es : List RelayEvent}
    (h : Turns relay around es relay' around') : Runs true relay es := by
  induction h with
  | here => trivial
  | settle _ _ _ ih => exact ih
  | turn hrunning henabled _ hstays _ ih => exact ⟨hrunning, henabled, fun hleaves => absurd hleaves hstays, ih⟩
  | leave hrunning henabled _ _ => exact ⟨hrunning, henabled, fun _ => rfl, trivial⟩

/-! ### What is left -/

/-- What a pipe can still give: its reads and its end. -/
def pipeLeft (isOpen : Bool) (reads : List Bytes) : ℕ := if isOpen then reads.length + 1 else 0

/-- How many messages the channel can still bring. -/
def StdinChannel.left : StdinChannel → ℕ
  | closed => 0
  | alive | holding _ => 1

/-- The events that are left: the reads and the end of each open pipe, the message
of the stdin task, and the exit. -/
def left (relay : Relay) (around : Around) : ℕ :=
  pipeLeft relay.stdoutOpen around.stdout + pipeLeft relay.stderrOpen around.stderr + around.channel.left +
    if relay.exitStatus.isNone then 1 else 0

theorem left_pos {relay : Relay} (h : relay.running = true) (around : Around) : 0 < left relay around := by
  rcases relay with ⟨stdoutOpen, stderrOpen, exitStatus⟩
  cases stdoutOpen with
  | true => simp [left, pipeLeft]
  | false =>
    cases stderrOpen with
    | true => simp [left, pipeLeft]
    | false =>
      cases exitStatus with
      | none => simp [left]
      | some status => cases h

/-- A read leaves less of its pipe. -/
theorem pipeLeft_tail_lt {data : Bytes} : ∀ {reads : List Bytes}, data = reads.headD [] →
    pipeLeft (decide (data ≠ [])) reads.tail < pipeLeft true reads
  | [], h => by
    have hnil : data = [] := h
    simp [pipeLeft, hnil]
  | chunk :: reads, _ => by
    have hle : pipeLeft (decide (data ≠ [])) reads ≤ reads.length + 1 := by
      unfold pipeLeft
      split <;> omega
    show pipeLeft _ reads < reads.length + 1 + 1
    omega

/-- A turn that stays in the loop takes something away, unless it is one on the
closed channel. -/
theorem left_after_lt {relay : Relay} {around : Around} {event : RelayEvent} (henabled : relay.Enabled true event)
    (hgives : around.Gives event) (hstays : ¬ event.Leaves) (hchannel : around.channel ≠ .closed) :
    left (relay.after event) (around.after event) < left relay around := by
  match event, henabled, hgives with
  | .stdout (.ok data), ⟨hopen, _⟩, hdata =>
    have hlt := pipeLeft_tail_lt hdata
    rw [← hopen] at hlt
    have hafter : left (relay.after (.stdout (.ok data))) (around.after (.stdout (.ok data))) =
        pipeLeft (decide (data ≠ [])) around.stdout.tail + pipeLeft relay.stderrOpen around.stderr +
          around.channel.left + if relay.exitStatus.isNone then 1 else 0 := rfl
    rw [hafter, left]
    omega
  | .stderr (.ok data), ⟨hopen, _⟩, hdata =>
    have hlt := pipeLeft_tail_lt hdata
    rw [← hopen] at hlt
    have hafter : left (relay.after (.stderr (.ok data))) (around.after (.stderr (.ok data))) =
        pipeLeft relay.stdoutOpen around.stdout + pipeLeft (decide (data ≠ [])) around.stderr.tail +
          around.channel.left + if relay.exitStatus.isNone then 1 else 0 := rfl
    rw [hafter, left]
    omega
  | .exit (.ok status), hnone, _ =>
    have hexit : relay.exitStatus.isNone = true := by rw [hnone]; rfl
    have hafter : left (relay.after (.exit (.ok status))) (around.after (.exit (.ok status))) =
        pipeLeft relay.stdoutOpen around.stdout + pipeLeft relay.stderrOpen around.stderr +
          around.channel.left + 0 := rfl
    rw [hafter, left, if_pos hexit]
    omega
  | .stdin none, _, hclosed => exact absurd hclosed hchannel
  | .stdout (.error _), _, _ | .stderr (.error _), _, _ | .exit (.error _), _, _ | .stdin (some _), _, _ =>
    exact absurd trivial hstays

theorem left_settled_le {around : Around} (halive : around.channel = .alive) (relay : Relay)
    (message : Option AnyhowError) : left relay (around.settled message) ≤ left relay around := by
  have hchannel : (around.settled message).channel.left ≤ around.channel.left := by
    rw [halive]
    cases message with
    | none => exact Nat.zero_le _
    | some err => exact Nat.le_refl _
  have hstdout : (around.settled message).stdout = around.stdout := by cases message <;> rfl
  have hstderr : (around.settled message).stderr = around.stderr := by cases message <;> rfl
  unfold left
  rw [hstdout, hstderr]
  omega

/-! ### Where the channel stays open -/

/-- The stdin task has not ended without a message, and will not. -/
def Around.Quiet (around : Around) : Prop := around.channel ≠ .closed ∧ around.outcome ≠ some none

theorem Around.Quiet.settled {around : Around} (h : around.Quiet) {message : Option AnyhowError}
    (hmessage : around.outcome = some message) : (around.settled message).Quiet := by
  cases message with
  | none => exact absurd hmessage h.2
  | some err => exact ⟨(fun hclosed => by cases hclosed), h.2⟩

theorem Around.Quiet.after {around : Around} (h : around.Quiet) {event : RelayEvent} (hgives : around.Gives event)
    (hstays : ¬ event.Leaves) : (around.after event).Quiet := by
  match event, hgives with
  | .stdout (.ok _), _ | .stderr (.ok _), _ | .exit (.ok _), _ => exact h
  | .stdin none, hclosed => exact absurd hclosed h.1
  | .stdout (.error _), _ | .stderr (.error _), _ | .exit (.error _), _ | .stdin (some _), _ =>
    exact absurd trivial hstays

/-- It stays so over a run, and the run has at most as many turns as events were left. -/
theorem Turns.quiet {relay relay' : Relay} {around around' : Around} {es : List RelayEvent}
    (h : Turns relay around es relay' around') (hquiet : around.Quiet) :
    around'.Quiet ∧ es.length ≤ left relay around := by
  induction h with
  | here relay around => exact ⟨hquiet, Nat.zero_le _⟩
  | settle halive hmessage _ ih =>
    obtain ⟨hquiet', hle⟩ := ih (hquiet.settled hmessage)
    exact ⟨hquiet', hle.trans (left_settled_le halive _ _)⟩
  | turn hrunning henabled hgives hstays _ ih =>
    obtain ⟨hquiet', hle⟩ := ih (hquiet.after hgives hstays)
    have hlt := left_after_lt henabled hgives hstays hquiet.1
    exact ⟨hquiet', by rw [List.length_cons]; omega⟩
  | leave hrunning _ _ _ => exact ⟨hquiet, left_pos hrunning _⟩

/-! ### Progress -/

/-- A shell has pipes or a terminal. -/
inductive ShellKind where
  | pipe
  | pty

/-- The loop at its start: a terminal is one pipe. -/
def ShellKind.start : ShellKind → Relay
  | pipe => .start
  | pty => ⟨true, false, none⟩

/-- The stdin task can end with a message, or without one. -/
def ShellKind.TaskEnds (requestId : UInt32) (message : Option AnyhowError) : ShellKind → Prop
  | pipe => ∃ fuel trace, Exec (stdinTask requestId fuel) trace (.returned message)
  | pty => ∃ fuel trace, Exec (ptyStdinTask requestId fuel) trace (.returned message)

/-- The end of the client's input ends the task without a message. -/
theorem ShellKind.taskEnds_of_eof (kind : ShellKind) (requestId : UInt32) : kind.TaskEnds requestId none := by
  cases kind with
  | pipe =>
    refine ⟨1, [⟨.read, .error (.io .unexpectedEof)⟩, ⟨.shutdown, ()⟩], ?_⟩
    exact exec_call_iff.mpr (Or.inr ⟨_, _, rfl, exec_call_iff.mpr (Or.inr ⟨(), [], rfl, .pure none⟩)⟩)
  | pty =>
    refine ⟨1, [⟨.read, .error (.io .unexpectedEof)⟩, ⟨.send .close, true⟩], ?_⟩
    exact exec_call_iff.mpr (Or.inr ⟨_, _, rfl, exec_call_iff.mpr (Or.inr ⟨true, [], rfl, .pure none⟩)⟩)

/-- Some measure decreases with every turn that stays in the loop, in every state
that can be reached, and a run has no more turns than there are events. -/
structure MakesProgress (kind : ShellKind) (around : Around) : Prop where
  decreases : ∃ measure : Relay → Around → ℕ, ∀ es relay now, Turns kind.start around es relay now →
    relay.running = true → ∀ event, relay.Enabled true event → now.Gives event →
      event.Leaves ∨ measure (relay.after event) (now.after event) < measure relay now
  bounded : ∀ requestId failures fuel trace stop relay now,
    Exec (relayLoop requestId true failures fuel kind.start []) trace stop →
      Turns kind.start around (events trace) relay now → (events trace).length ≤ left kind.start around

/-- **When the shells' loop makes progress.** For both kinds of shell, every
output of the child and every cut of it into reads, whichever branch is taken: the
loop makes progress in every state it can reach if and only if the stdin task does
not end without a message. -/
theorem relay_progress_iff (kind : ShellKind) (stdout stderr : List Bytes) (outcome : Option (Option AnyhowError)) :
    MakesProgress kind ⟨stdout, stderr, .alive, outcome⟩ ↔ outcome ≠ some none := by
  constructor
  · rintro ⟨⟨measure, hdecreases⟩, -⟩ hnone
    have hrunning : kind.start.running = true := by cases kind <;> rfl
    -- the task ends at once, and the channel answers from then on
    have hclosed : Turns kind.start ⟨stdout, stderr, .alive, outcome⟩ [] kind.start
        ⟨stdout, stderr, .closed, outcome⟩ := .settle rfl hnone (.here _ _)
    rcases hdecreases _ _ _ hclosed hrunning (.stdin none) rfl rfl with hleaves | hlt
    · exact hleaves
    · exact absurd hlt (Nat.lt_irrefl _)
  · intro houtcome
    have hquiet : (⟨stdout, stderr, .alive, outcome⟩ : Around).Quiet := ⟨(fun h => by cases h), houtcome⟩
    refine ⟨⟨left, fun es relay now hturns _ event henabled hgives => ?_⟩, fun _ _ _ _ _ _ _ _ hturns => ?_⟩
    · by_cases hleaves : event.Leaves
      · exact Or.inl hleaves
      · exact Or.inr (left_after_lt henabled hgives hleaves (hturns.quiet hquiet).1.1)
    · exact (hturns.quiet hquiet).2

/-- The child writes `hi` and runs on. -/
def hiAround (channel : StdinChannel) : Around := ⟨[str "hi"], [], channel, some none⟩

theorem spins_on_closed (kind : ShellKind) :
    kind.TaskEnds 7 none ∧ ¬ MakesProgress kind (hiAround .alive) ∧
      ∀ n, Turns kind.start (hiAround .alive) (List.replicate n (.stdin none)) kind.start (hiAround .closed) := by
  have hrunning : kind.start.running = true := by cases kind <;> rfl
  have hspins : ∀ n, Turns kind.start (hiAround .closed) (List.replicate n (.stdin none)) kind.start
      (hiAround .closed) := by
    intro n
    induction n with
    | zero => exact .here _ _
    | succ n ih => exact .turn hrunning rfl rfl id ih
  refine ⟨kind.taskEnds_of_eof 7, ?_, fun n => .settle rfl rfl (hspins n)⟩
  rintro ⟨⟨measure, hdecreases⟩, -⟩
  rcases hdecreases _ _ _ (.settle rfl rfl (.here _ _)) hrunning (.stdin none) rfl rfl with hleaves | hlt
  · exact hleaves
  · exact absurd hlt (Nat.lt_irrefl _)

/-- A client that closes its input ends the stdin task without a message, and from
then on the loop can turn on the closed channel as often as it likes. -/
theorem relay_spins_after_close :
    (ShellKind.pipe.TaskEnds 7 none ∧ ¬ MakesProgress .pipe (hiAround .alive) ∧
      ∀ n, Turns ShellKind.pipe.start (hiAround .alive) (List.replicate n (.stdin none)) ShellKind.pipe.start
        (hiAround .closed)) ∧
    ShellKind.pty.TaskEnds 7 none ∧ ¬ MakesProgress .pty (hiAround .alive) ∧
      ∀ n, Turns ShellKind.pty.start (hiAround .alive) (List.replicate n (.stdin none)) ShellKind.pty.start
        (hiAround .closed) := ⟨spins_on_closed .pipe, spins_on_closed .pty⟩

end Daemon

end Rsdb
