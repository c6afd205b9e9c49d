/-
# `rsdb agent transfer push`

`run_agent_transfer_push` resolves where the roots go and then pushes in one of two
ways. Plainly, it pushes the manifest to the destination. With `--atomic` or
`--if-changed` it goes root by root: it leaves out a root that is there already, pushes
the others each to a staged path beside its place and then moves it there; if the push
or the move fails, it asks for the removal of the staged path and stops. At the end
`--verify` compares every root with its source.

A run may stop at any call, with any answers before it. A run of the second kind is a
sequence of rounds (`Round`), one for each root in turn, of which only the last may be
cut short (`staged_push_rounds`); a round that pushes nothing is one that has found the
root there, compared with hashes (`Look`). A run that returns has the comparisons its
report rests on (`justified_of_returned`).
-/
import Rsdb.Client.AgentRequest

namespace Rsdb

namespace Client

namespace Agent

open Prog (Exec Trace Stop exec_pure_iff exec_fail_iff exec_call_iff exec_ofExcept_iff exec_bind exec_attempt
  exec_bind_returned exec_pure_returned)

/-! ### The command -/

/-- What is compared when a transfer is verified. -/
inductive TransferVerifyMode where
  | size | sha256
  deriving DecidableEq

/-- The mode as the command line and the report have it. -/
def transferVerifyName : TransferVerifyMode → Str
  | .size => str "size"
  | .sha256 => str "sha256"

/-- Whether digests are compared too. -/
def verifyUsesHash (mode : TransferVerifyMode) : Bool := mode = .sha256

/-- The arguments of `run_agent_transfer_push`. -/
structure PushArgs where
  target : Str
  sourceSpecs : List Str
  destination : Str
  verify : Option TransferVerifyMode
  atomic : Bool
  ifChanged : Bool

/-- What a failure of the push says of it. -/
def PushArgs.details (asked : PushArgs) : List (Str × Detail) :=
  [(str "sources", .texts asked.sourceSpecs), (str "destination", .text asked.destination),
    (str "verify", asked.verify.elim .null fun mode => .text (transferVerifyName mode)),
    (str "atomic", .flag asked.atomic), (str "if_changed", .flag asked.ifChanged)]

/-- A path beside the final root, with the nanoseconds of the clock and the root's index in its name. -/
def stagedRemoteTransferPath (finalRoot : Path) (index nonce : ℕ) : Path :=
  let parent := (finalRoot.parent.filter fun parent => !parent.isEmpty).getD .here
  let fileName := ((finalRoot.fileName.map Subtype.val).filter isUtf8).getD (str "rsdb-transfer")
  parent.join (.ofStr (str "." ++ fileName ++ str ".rsdb-transfer-" ++ decimal nonce ++ str "-" ++ decimal index))

/-- What has been pushed so far; the counters are `u64`. -/
structure PushTotals where
  entriesWritten : ℕ
  bytesWritten : ℕ
  changedRoots : ℕ

/-- Nothing has been pushed. -/
def PushTotals.zero : PushTotals := ⟨0, 0, 0⟩

/-- The counts are 64 bits wide. -/
def PushTotals.add (totals : PushTotals) (summary : PushSummary) : PushTotals where
  entriesWritten := (totals.entriesWritten + summary.entriesWritten) % 2 ^ 64
  bytesWritten := (totals.bytesWritten + summary.bytesWritten) % 2 ^ 64
  changedRoots := totals.changedRoots + 1

/-- A source, its final root, and its index. -/
structure Placement where
  source : Path
  remoteRoot : Path
  index : ℕ

/-- Each source with its root, numbered. -/
def placements (sources remoteRoots : List Path) : List Placement :=
  (sources.zip remoteRoots).zipIdx.map fun pair => ⟨pair.1.1, pair.1.2, pair.2⟩

/-- What a failure at a root says of it. -/
def Placement.details (place : Placement) : List (Str × Detail) :=
  [(str "source", .text (pathText place.source)), (str "destination", .text (pathText place.remoteRoot))]

/-- Where a root is received before it is moved. -/
def Placement.staged (place : Placement) (nonce : ℕ) : Path :=
  stagedRemoteTransferPath place.remoteRoot place.index nonce

section

variable (codec : Codec) (asked : PushArgs)

/-- `map_operation_error` of a push. -/
def pushFailure (err : CommandError) (details : List (Str × Detail)) : AgentCommandFailure :=
  mapOperationError (str "transfer.push") (some asked.target) err details

/-- The states of a source's files and directories on this side. -/
def localStateOf (place : Placement) (includeHash : Bool) : AgentProg TransferState := do
  let state ← Prog.ask (AgentCall.localState place.source includeHash)
  .ofExcept (state.mapError fun err => pushFailure asked err place.details)

/-- The other side has there what the source has. -/
def matchesRemote (place : Placement) (includeHash : Bool) : AgentProg Bool := do
  let localState ← localStateOf asked place includeHash
  let remoteState ← collectRemoteTransferState codec asked.target place.remoteRoot includeHash
  .pure (remoteState.any fun remoteState => transferStatesMatch localState remoteState)

/-- One root to its staged path, and from there to its place. -/
def stageRoot (manifest : LocalBatchManifest) (place : Placement) : AgentProg PushSummary := do
  let nonce ← Prog.ask AgentCall.clock
  let tempRoot := pathText (place.staged (nonce.getD 0))
  let single ← .ofExcept ((filterLocalBatchManifest manifest [UInt32.ofNat place.index]).mapError fun err =>
    pushFailure asked (.bail err.message) place.details)
  match ← Prog.ask (AgentCall.push single tempRoot) with
  | .error err => do
    let _ ← (cleanupRemotePath codec asked.target tempRoot).attempt
    .fail (pushFailure asked err place.details)
  | .ok summary =>
    match ← (remoteFsMoveRequest codec asked.target tempRoot (pathText place.remoteRoot) true).attempt with
    | .error failure => do
      let _ ← (cleanupRemotePath codec asked.target tempRoot).attempt
      .fail failure
    | .ok () => .pure summary

/-- The look of `--if-changed`. -/
def isUnchanged (place : Placement) : AgentProg Bool :=
  if asked.ifChanged then matchesRemote codec asked place true else .pure false

/-- A root that is there is left out. -/
def pushRoot (manifest : LocalBatchManifest) (place : Placement) : AgentProg (Option PushSummary) := do
  let unchanged ← isUnchanged codec asked place
  if unchanged then .pure none
  else do
    let summary ← stageRoot codec asked manifest place
    .pure (some summary)

/-- The roots in turn. -/
def pushRoots (manifest : LocalBatchManifest) : List Placement → PushTotals → AgentProg PushTotals
  | [], totals => .pure totals
  | place :: places, totals => do
    let pushed ← pushRoot codec asked manifest place
    pushRoots manifest places (pushed.elim totals totals.add)

/-- Every root is compared with its source. -/
def verifyRoots (mode : TransferVerifyMode) : List Placement → AgentProg Unit
  | [] => .pure ()
  | place :: places => do
    let verified ← matchesRemote codec asked place (verifyUsesHash mode)
    if verified then verifyRoots mode places
    else
      .fail (transferVerificationFailure asked.target
        (str "remote destination does not match pushed content: " ++ pathText place.remoteRoot)
        (place.details ++ [(str "verification", .text (transferVerifyName mode))]))

/-- `--verify`, if it is given. -/
def verifyIfAsked (places : List Placement) : AgentProg Unit :=
  match asked.verify with
  | none => .pure ()
  | some mode => verifyRoots codec asked mode places

/-- What a push reports. -/
def PushArgs.summary (entriesWritten bytesWritten : ℕ) (skipped : Bool) : PushSummary :=
  ⟨entriesWritten, bytesWritten, skipped, asked.verify.map transferVerifyName, asked.verify.isSome⟩

/-- `agent transfer push`: the manifest is built, the roots are placed, and they are pushed
together or one by one. -/
def runAgentTransferPush : AgentProg PushSummary := do
  let built ← Prog.ask (AgentCall.buildManifest asked.sourceSpecs)
  let manifest ← .ofExcept (built.mapError fun err => pushFailure asked err asked.details)
  let finalRootPaths ← resolveRemoteBatchRoots codec asked.target asked.destination manifest.roots
  let places := placements manifest.sources finalRootPaths
  if asked.atomic = false ∧ asked.ifChanged = false then do
    let pushed ← Prog.ask (AgentCall.push manifest asked.destination)
    let summary ← .ofExcept (pushed.mapError fun err => pushFailure asked err asked.details)
    verifyIfAsked codec asked places
    .pure (asked.summary summary.entriesWritten summary.bytesWritten false)
  else do
    let totals ← pushRoots codec asked manifest places .zero
    verifyIfAsked codec asked places
    .pure (asked.summary totals.entriesWritten totals.bytesWritten (asked.ifChanged && totals.changedRoots = 0))

end

/-! ### Rounds -/

/-- The clean-up of a staged path: it is asked for, and then the run fails. -/
inductive Cleanup {α : Type} (tempRoot : Str) : AgentTrace → Stop AgentCommandFailure α → Prop where
  | cut : Cleanup tempRoot [] .waiting
  | asked (answer : Except CommandError ControlResponse) (failure : AgentCommandFailure) :
    Cleanup tempRoot [⟨.request (.fsRm tempRoot true true true), answer⟩] (.failed failure)

/-- The push of the root to its staged path. -/
structure StagedPush (manifest : LocalBatchManifest) (place : Placement) (tempRoot : Str)
    (single : LocalBatchManifest) : Prop where
  one : filterLocalBatchManifest manifest [UInt32.ofNat place.index] = .ok single
  beside : ∃ nonce, tempRoot = pathText (place.staged nonce)

/-- What the push of one root changes on the other side, and where it stops: at the end
the root has been moved to its place. -/
inductive Stage (manifest : LocalBatchManifest) (place : Placement) :
    AgentTrace → Stop AgentCommandFailure (Option PushSummary) → Prop where
  | cut : Stage manifest place [] .waiting
  | failed (failure : AgentCommandFailure) : Stage manifest place [] (.failed failure)
  | notPushed {tempRoot : Str} {single : LocalBatchManifest} {rest : AgentTrace}
      {stop : Stop AgentCommandFailure (Option PushSummary)} (err : CommandError)
      (hpush : StagedPush manifest place tempRoot single) (hcleanup : Cleanup tempRoot rest stop) :
    Stage manifest place (⟨.push single tempRoot, .error err⟩ :: rest) stop
  | pushed {tempRoot : Str} {single : LocalBatchManifest} (summary : PushSummary)
      (hpush : StagedPush manifest place tempRoot single) :
    Stage manifest place [⟨.push single tempRoot, .ok summary⟩] .waiting
  | notMoved {tempRoot : Str} {single : LocalBatchManifest} {rest : AgentTrace}
      {stop : Stop AgentCommandFailure (Option PushSummary)} (summary : PushSummary)
      (answer : Except CommandError ControlResponse) (hpush : StagedPush manifest place tempRoot single)
      (hanswer : ∀ result, answer ≠ .ok (.fsMoveResult result)) (hcleanup : Cleanup tempRoot rest stop) :
    Stage manifest place (⟨.push single tempRoot, .ok summary⟩ ::
      ⟨.request (.fsMove tempRoot (pathText place.remoteRoot) true), answer⟩ :: rest) stop
  | moved {tempRoot : Str} {single : LocalBatchManifest} (summary : PushSummary) (result : AgentFsMoveResult)
      (hpush : StagedPush manifest place tempRoot single) :
    Stage manifest place [⟨.push single tempRoot, .ok summary⟩,
      ⟨.request (.fsMove tempRoot (pathText place.remoteRoot) true), .ok (.fsMoveResult result)⟩]
      (.returned (some summary))

section

variable (codec : Codec) (asked : PushArgs) (place : Placement)

/-- A comparison of a root with its source, and what it has come to: what the source has,
what has been answered for the root, and whether the two are the same. -/
structure Comparison (includeHash : Bool) (trace : AgentTrace) (same : Bool) : Prop where
  compared : ∃ localState remoteState answers,
    trace = ⟨.localState place.source includeHash, .ok localState⟩ :: answers ∧
      Exec (collectRemoteTransferState codec asked.target place.remoteRoot includeHash) answers (.returned remoteState) ∧
      (same = true ↔ ∃ state, remoteState = some state ∧ transferStatesMatch localState state = true)

/-- The look before a push: with `--if-changed` a comparison, hashes included, and without
it none; a root is there already only by a comparison. -/
inductive Look : AgentTrace → Bool → Prop where
  | notAsked (hasked : asked.ifChanged = false) : Look [] false
  | compared {trace : AgentTrace} {same : Bool} (hasked : asked.ifChanged = true)
      (hcompared : Comparison codec asked place true trace same) : Look trace same

/-- The turn of one root: it is there already, and nothing is pushed; or the turn stops
while it looks; or the look has not found the root, and it is staged. -/
inductive Round (manifest : LocalBatchManifest) : AgentTrace → Stop AgentCommandFailure (Option PushSummary) → Prop where
  | unchanged {trace : AgentTrace} (hlook : Look codec asked place trace true) : Round manifest trace (.returned none)
  | looking {trace : AgentTrace} {stop : Stop AgentCommandFailure (Option PushSummary)} (hquiet : changesOf trace = [])
      (hstop : ∀ pushed, stop ≠ .returned pushed) : Round manifest trace stop
  | staged {looked later : AgentTrace} {stop : Stop AgentCommandFailure (Option PushSummary)}
      (hlook : Look codec asked place looked false) (hstage : Stage manifest place (changesOf later) stop) :
    Round manifest (looked ++ later) stop

end

/-- Rounds for the roots in turn: `done` is what they have come to as far as they are
through, and `last` where the run stops. -/
inductive Rounds (codec : Codec) (asked : PushArgs) (manifest : LocalBatchManifest) :
    List Placement → AgentTrace → List (Option PushSummary) → Stop AgentCommandFailure Unit → Prop where
  | all : Rounds codec asked manifest [] [] [] (.returned ())
  | round {place : Placement} {places : List Placement} {first rest : AgentTrace} {pushed : Option PushSummary}
      {done : List (Option PushSummary)} {last : Stop AgentCommandFailure Unit}
      (hround : Round codec asked place manifest first (.returned pushed))
      (hrest : Rounds codec asked manifest places rest done last) :
    Rounds codec asked manifest (place :: places) (first ++ rest) (pushed :: done) last
  | cut {place : Placement} {places : List Placement} {first : AgentTrace}
      (hround : Round codec asked place manifest first .waiting) :
    Rounds codec asked manifest (place :: places) first [] .waiting
  | failed {place : Placement} {places : List Placement} {first : AgentTrace} {failure : AgentCommandFailure}
      (hround : Round codec asked place manifest first (.failed failure)) :
    Rounds codec asked manifest (place :: places) first [] (.failed failure)

/-- The totals of what has been pushed. -/
def PushTotals.addAll (totals : PushTotals) (done : List (Option PushSummary)) : PushTotals :=
  done.foldl (fun totals pushed => pushed.elim totals totals.add) totals

section

variable {codec : Codec} {asked : PushArgs} {manifest : LocalBatchManifest} {place : Placement} {places : List Placement}
  {trace : AgentTrace}

theorem looks_localStateOf (includeHash : Bool) : Looks (localStateOf asked place includeHash) :=
  (looks_ask rfl).bind fun _ => all_ofExcept _

theorem looks_matchesRemote (includeHash : Bool) : Looks (matchesRemote codec asked place includeHash) :=
  (looks_localStateOf includeHash).bind fun _ =>
    (looks_collectRemoteTransferState codec asked.target _ _).bind fun _ => looks_pure _

theorem looks_verifyRoots (mode : TransferVerifyMode) : ∀ places : List Placement,
    Looks (verifyRoots codec asked mode places)
  | [] => looks_pure _
  | _ :: places => (looks_matchesRemote _).bind fun verified => by
    cases verified
    · exact looks_fail _
    · exact looks_verifyRoots mode places

theorem looks_verifyIfAsked (places : List Placement) : Looks (verifyIfAsked codec asked places) := by
  unfold verifyIfAsked
  split
  · exact looks_pure _
  · exact looks_verifyRoots _ _

/-- What is compared, and with what. -/
theorem comparison_of_exec {includeHash same : Bool}
    (h : Exec (matchesRemote codec asked place includeHash) trace (.returned same)) :
    Comparison codec asked place includeHash trace same := by
  obtain ⟨localState, first, rest, rfl, hlocal, hremote⟩ := exec_bind_returned h
  obtain ⟨answer, rest', rfl, hanswer⟩ := Prog.exec_ask_returned hlocal
  cases answer with
  | error err => cases hanswer
  | ok state =>
    obtain ⟨rfl, rfl⟩ := exec_pure_returned hanswer
    obtain ⟨remoteState, answers, last, rfl, hcollected, hend⟩ := exec_bind_returned hremote
    obtain ⟨rfl, rfl⟩ := exec_pure_returned hend
    refine ⟨localState, remoteState, answers, by rw [List.append_nil]; rfl, hcollected, ?_⟩
    rw [Option.any_eq_true]

theorem Comparison.changesOf {includeHash same : Bool} (h : Comparison codec asked place includeHash trace same) :
    Agent.changesOf trace = [] := by
  obtain ⟨localState, remoteState, answers, rfl, hcollected, -⟩ := h.compared
  rw [changesOf_looking rfl, (looks_collectRemoteTransferState codec asked.target _ _).changesOf hcollected]

theorem Look.changesOf {same : Bool} (h : Look codec asked place trace same) : Agent.changesOf trace = [] := by
  cases h with
  | notAsked hasked => rfl
  | compared hasked hcompared => exact hcompared.changesOf

theorem look_of_exec {same : Bool} (h : Exec (isUnchanged codec asked place) trace (.returned same)) :
    Look codec asked place trace same := by
  unfold isUnchanged at h
  split at h
  · rename_i hasked
    exact .compared hasked (comparison_of_exec h)
  · rename_i hasked
    obtain ⟨rfl, rfl⟩ := exec_pure_returned h
    exact .notAsked (Bool.eq_false_iff.mpr hasked)

/-- A request that changes something, and a program that only fails or returns behind it. -/
theorem exec_agentRequest {α : Type} {target command : Str} {request : ControlRequest} {details : List (Str × Detail)}
    {f : ControlResponse → AgentProg α} {stop : Stop AgentCommandFailure α}
    (h : Exec (agentRequest target command request details >>= f) trace stop) :
    (trace = [] ∧ stop = .waiting) ∨ ∃ answer rest, trace = ⟨.request request, answer⟩ :: rest ∧
      ((∃ failure, rest = [] ∧ stop = .failed failure) ∨
        ∃ response, answer = .ok response ∧ Exec (f response) rest stop) := by
  unfold agentRequest at h
  rw [Prog.bind_assoc, Prog.ask_bind] at h
  rcases exec_call_iff.mp h with hcut | ⟨answer, rest, rfl, hrest⟩
  · exact Or.inl hcut
  · refine Or.inr ⟨answer, rest, rfl, ?_⟩
    rcases answer with err | response
    · obtain ⟨rfl, rfl⟩ := exec_fail_iff.mp hrest
      exact Or.inl ⟨_, rfl, rfl⟩
    · cases response
      case error code message =>
        obtain ⟨rfl, rfl⟩ := exec_fail_iff.mp hrest
        exact Or.inl ⟨_, rfl, rfl⟩
      all_goals exact Or.inr ⟨_, rfl, hrest⟩

/-- The clean-up, and the failure behind it. -/
theorem cleanup_of_exec {α : Type} {tempRoot : Str} {failure : AgentCommandFailure} {stop : Stop AgentCommandFailure α}
    (h : Exec ((cleanupRemotePath codec asked.target tempRoot).attempt >>= fun _ => .fail failure) trace stop) :
    Cleanup tempRoot (changesOf trace) stop := by
  have hcleanup : ∀ {outcome : Stop AgentCommandFailure Unit},
      Exec (cleanupRemotePath codec asked.target tempRoot) trace outcome →
        (outcome = .waiting ∧ trace = []) ∨
          ∃ answer, trace = [⟨.request (.fsRm tempRoot true true true), answer⟩] ∧ outcome ≠ .waiting := by
    intro outcome hexec
    rcases exec_agentRequest hexec with ⟨rfl, rfl⟩ | ⟨answer, rest, rfl, ⟨_, rfl, rfl⟩ | ⟨response, -, hrest⟩⟩
    · exact Or.inl ⟨rfl, rfl⟩
    · exact Or.inr ⟨answer, rfl, by simp⟩
    · have hended : rest = [] ∧ outcome ≠ .waiting := by
        cases response
        case fsRmResult =>
          obtain ⟨rfl, rfl⟩ := exec_pure_iff.mp hrest
          exact ⟨rfl, by simp⟩
        all_goals
          obtain ⟨rfl, rfl⟩ := exec_fail_iff.mp hrest
          exact ⟨rfl, by simp⟩
      obtain ⟨rfl, hne⟩ := hended
      exact Or.inr ⟨answer, rfl, hne⟩
  rcases exec_bind h with ⟨hcut, rfl⟩ | ⟨e, hcut, rfl⟩ | ⟨outcome, first, rest, rfl, hfirst, hrest⟩
  · rcases exec_attempt hcut with ⟨hx, -⟩ | ⟨r, -, hr⟩
    · rcases hcleanup hx with ⟨-, rfl⟩ | ⟨_, _, hne⟩
      · exact .cut
      · exact absurd rfl hne
    · cases hr
  · rcases exec_attempt hcut with ⟨-, hr⟩ | ⟨r, -, hr⟩ <;> cases hr
  · obtain ⟨rfl, rfl⟩ := exec_fail_iff.mp hrest
    rcases exec_attempt hfirst with ⟨-, hr⟩ | ⟨r, hx, -⟩
    · cases hr
    · rw [List.append_nil] at hcleanup ⊢
      rcases hcleanup hx with ⟨hr, -⟩ | ⟨answer, rfl, -⟩
      · cases r <;> cases hr
      · exact .asked answer failure

/-- The move, which is asked for first. -/
theorem exec_remoteFsMoveRequest {target source destination : Str} {overwrite : Bool}
    {stop : Stop AgentCommandFailure Unit}
    (h : Exec (remoteFsMoveRequest codec target source destination overwrite) trace stop) :
    (trace = [] ∧ stop = .waiting) ∨
      ∃ answer, trace = [⟨.request (.fsMove source destination overwrite), answer⟩] ∧
        ((∃ result, answer = .ok (.fsMoveResult result) ∧ stop = .returned ()) ∨
          ∃ failure, (∀ result, answer ≠ .ok (.fsMoveResult result)) ∧ stop = .failed failure) := by
  unfold remoteFsMoveRequest agentRequest at h
  rw [Prog.bind_assoc, Prog.ask_bind] at h
  rcases exec_call_iff.mp h with hcut | ⟨answer, rest, rfl, hrest⟩
  · exact Or.inl hcut
  · refine Or.inr ⟨answer, ?_⟩
    rcases answer with err | response
    · obtain ⟨rfl, rfl⟩ := exec_fail_iff.mp hrest
      exact ⟨rfl, Or.inr ⟨_, by simp, rfl⟩⟩
    · cases response
      case fsMoveResult result =>
        obtain ⟨rfl, rfl⟩ := exec_pure_iff.mp hrest
        exact ⟨rfl, Or.inl ⟨result, rfl, rfl⟩⟩
      all_goals
        obtain ⟨rfl, rfl⟩ := exec_fail_iff.mp hrest
        exact ⟨rfl, Or.inr ⟨_, by simp, rfl⟩⟩

theorem stage_of_stageRoot {stop : Stop AgentCommandFailure (Option PushSummary)}
    (h : Exec (stageRoot codec asked manifest place >>= fun summary => .pure (some summary)) trace stop) :
    Stage manifest place (changesOf trace) stop := by
  unfold stageRoot at h
  simp only [Prog.bind_assoc, Prog.ask_bind, Prog.call_bind] at h
  rcases exec_call_iff.mp h with ⟨rfl, rfl⟩ | ⟨nonce, rest, rfl, hrest⟩
  · exact .cut
  rw [changesOf_looking rfl]
  cases hone : filterLocalBatchManifest manifest [UInt32.ofNat place.index] with
  | error err =>
    rw [hone] at hrest
    obtain ⟨rfl, rfl⟩ := exec_fail_iff.mp hrest
    exact .failed _
  | ok single =>
    rw [hone] at hrest
    have hpush : StagedPush manifest place (pathText (place.staged (nonce.getD 0))) single := ⟨hone, _, rfl⟩
    generalize pathText (place.staged (nonce.getD 0)) = tempRoot at hpush hrest
    rcases exec_call_iff.mp hrest with ⟨rfl, rfl⟩ | ⟨pushed, rest', rfl, hpushed⟩
    · exact .cut
    rw [changesOf_changing rfl]
    cases pushed with
    | error err =>
      rw [Prog.bind_assoc] at hpushed
      exact .notPushed err hpush (cleanup_of_exec hpushed)
    | ok summary =>
      rw [Prog.bind_assoc] at hpushed
      rcases exec_bind hpushed with ⟨hcut, rfl⟩ | ⟨e, hcut, rfl⟩ | ⟨outcome, first, last, rfl, hfirst, hlast⟩
      · rcases exec_attempt hcut with ⟨hmove, -⟩ | ⟨r, -, hr⟩
        · rcases exec_remoteFsMoveRequest hmove with ⟨rfl, -⟩ | ⟨answer, -, ⟨_, -, hstop⟩ | ⟨_, -, hstop⟩⟩
          · exact .pushed summary hpush
          · cases hstop
          · cases hstop
        · cases hr
      · rcases exec_attempt hcut with ⟨-, hr⟩ | ⟨r, -, hr⟩ <;> cases hr
      · rcases exec_attempt hfirst with ⟨-, hr⟩ | ⟨r, hmove, hr⟩
        · cases hr
        obtain rfl := Stop.returned.inj hr
        rw [changesOf_append]
        rcases exec_remoteFsMoveRequest hmove with
          ⟨-, hstop⟩ | ⟨answer, rfl, ⟨result, rfl, hstop⟩ | ⟨failure, hanswer, hstop⟩⟩
        · cases outcome <;> cases hstop
        · cases outcome with
          | error failure => cases hstop
          | ok u =>
            obtain ⟨rfl, rfl⟩ := exec_pure_iff.mp hlast
            exact .moved summary result hpush
        · cases outcome with
          | error failure' =>
            rw [Prog.bind_assoc] at hlast
            exact .notMoved summary answer hpush hanswer (cleanup_of_exec hlast)
          | ok u => cases hstop

/-- A root's turn is a round. -/
theorem round_of_pushRoot {stop : Stop AgentCommandFailure (Option PushSummary)}
    (h : Exec (pushRoot codec asked manifest place) trace stop) : Round codec asked place manifest trace stop := by
  have hlooks : Looks (isUnchanged codec asked place) := by
    unfold isUnchanged
    split
    · exact looks_matchesRemote true
    · exact looks_pure false
  rcases exec_bind h with ⟨hcut, rfl⟩ | ⟨failure, hcut, rfl⟩ | ⟨unchanged, first, rest, rfl, hfirst, hrest⟩
  · exact .looking (hlooks.changesOf hcut) nofun
  · exact .looking (hlooks.changesOf hcut) nofun
  · have hlook := look_of_exec hfirst
    cases unchanged with
    | true =>
      obtain ⟨rfl, rfl⟩ := exec_pure_iff.mp hrest
      rw [List.append_nil]
      exact .unchanged hlook
    | false => exact .staged hlook (stage_of_stageRoot hrest)

/-- The roots' turns are rounds. -/
theorem rounds_of_pushRoots : ∀ {places : List Placement} {totals : PushTotals} {trace : AgentTrace}
    {stop : Stop AgentCommandFailure PushTotals}, Exec (pushRoots codec asked manifest places totals) trace stop →
      ∃ done last, Rounds codec asked manifest places trace done last ∧
        ((last = .returned () ∧ stop = .returned (totals.addAll done)) ∨ (last = .waiting ∧ stop = .waiting) ∨
          ∃ failure, last = .failed failure ∧ stop = .failed failure)
  | [], totals, trace, stop, h => by
    obtain ⟨rfl, rfl⟩ := exec_pure_iff.mp h
    exact ⟨[], .returned (), .all, Or.inl ⟨rfl, rfl⟩⟩
  | place :: places, totals, trace, stop, h => by
    rcases exec_bind h with ⟨hcut, rfl⟩ | ⟨failure, hcut, rfl⟩ | ⟨pushed, first, rest, rfl, hfirst, hrest⟩
    · exact ⟨[], .waiting, .cut (round_of_pushRoot hcut), Or.inr (Or.inl ⟨rfl, rfl⟩)⟩
    · exact ⟨[], .failed failure, .failed (round_of_pushRoot hcut), Or.inr (Or.inr ⟨failure, rfl, rfl⟩)⟩
    · obtain ⟨done, last, hrounds, hstop⟩ := rounds_of_pushRoots hrest
      exact ⟨pushed :: done, last, .round (round_of_pushRoot hfirst) hrounds, hstop⟩

/-! ### A whole run -/

/-- How a run starts: the manifest is built, and its roots are resolved. -/
structure Begins (codec : Codec) (asked : PushArgs) (trace : AgentTrace) (manifest : LocalBatchManifest)
    (remoteRoots : List Path) (rest : AgentTrace) : Prop where
  split : ∃ looked, trace = ⟨.buildManifest asked.sourceSpecs, .ok manifest⟩ :: (looked ++ rest) ∧
    Exec (resolveRemoteBatchRoots codec asked.target asked.destination manifest.roots) looked (.returned remoteRoots)

theorem Begins.before {remoteRoots : List Path} {rest : AgentTrace}
    (h : Begins codec asked trace manifest remoteRoots rest) : ∃ before, trace = before ++ rest ∧ changesOf before = [] := by
  obtain ⟨looked, rfl, hlooked⟩ := h.split
  refine ⟨_ :: looked, rfl, ?_⟩
  rw [changesOf_looking rfl, (looks_resolveRemoteBatchRoots codec _ _ _).changesOf hlooked]

/-- A run that gets past its first looks. -/
theorem begins_of_exec {α : Type} {f : LocalBatchManifest → List Path → AgentProg α} {stop : Stop AgentCommandFailure α}
    (h : Exec (do
      let built ← Prog.ask (AgentCall.buildManifest asked.sourceSpecs)
      let manifest ← .ofExcept (built.mapError fun err => pushFailure asked err asked.details)
      let remoteRoots ← resolveRemoteBatchRoots codec asked.target asked.destination manifest.roots
      f manifest remoteRoots) trace stop) :
    (changesOf trace = [] ∧ ∀ a, stop ≠ .returned a) ∨ ∃ manifest remoteRoots rest,
      Begins codec asked trace manifest remoteRoots rest ∧ Exec (f manifest remoteRoots) rest stop := by
  rcases exec_call_iff.mp h with ⟨rfl, rfl⟩ | ⟨built, rest, rfl, hrest⟩
  · exact Or.inl ⟨rfl, by simp⟩
  cases built with
  | error err =>
    obtain ⟨rfl, rfl⟩ := exec_fail_iff.mp hrest
    exact Or.inl ⟨rfl, by simp⟩
  | ok manifest =>
    have hlooks := looks_resolveRemoteBatchRoots codec asked.target asked.destination manifest.roots
    rcases exec_bind (show Exec (_ >>= f manifest) rest stop from hrest) with
      ⟨hcut, rfl⟩ | ⟨failure, hcut, rfl⟩ | ⟨remoteRoots, looked, rest', rfl, hlooked, hgoes⟩
    · exact Or.inl ⟨by rw [changesOf_looking rfl, hlooks.changesOf hcut], by simp⟩
    · exact Or.inl ⟨by rw [changesOf_looking rfl, hlooks.changesOf hcut], by simp⟩
    · exact Or.inr ⟨manifest, remoteRoots, rest', ⟨looked, rfl, hlooked⟩, hgoes⟩

/-- What a run of a staged push reports. -/
def PushArgs.reports (asked : PushArgs) (done : List (Option PushSummary)) : PushSummary :=
  let totals := PushTotals.zero.addAll done
  asked.summary totals.entriesWritten totals.bytesWritten (asked.ifChanged && totals.changedRoots = 0)

/-- The second part of a staged push: the rounds, and behind them what is verified. -/
theorem rounds_of_goes {remoteRoots : List Path} {rest : AgentTrace} {stop : Stop AgentCommandFailure PushSummary}
    (h : Exec (do
      let totals ← pushRoots codec asked manifest (placements manifest.sources remoteRoots) .zero
      verifyIfAsked codec asked (placements manifest.sources remoteRoots)
      Prog.pure (asked.summary totals.entriesWritten totals.bytesWritten
        (asked.ifChanged && totals.changedRoots = 0))) rest stop) :
    ∃ rounds checks done last, rest = rounds ++ checks ∧ changesOf checks = [] ∧
      Rounds codec asked manifest (placements manifest.sources remoteRoots) rounds done last ∧
      (∀ summary, stop = .returned summary → last = .returned () ∧ summary = asked.reports done) ∧
      ∀ failure, last = .failed failure → stop = .failed failure := by
  rcases exec_bind h with ⟨hcut, rfl⟩ | ⟨failure, hcut, rfl⟩ | ⟨totals, first, last, rfl, hfirst, hlast⟩
  · obtain ⟨done, last, hrounds, ⟨-, hstop⟩ | ⟨rfl, -⟩ | ⟨_, -, hstop⟩⟩ := rounds_of_pushRoots hcut
    · cases hstop
    · exact ⟨rest, [], done, .waiting, (List.append_nil rest).symm, rfl, hrounds, by simp, by simp⟩
    · cases hstop
  · obtain ⟨done, last, hrounds, ⟨-, hstop⟩ | ⟨-, hstop⟩ | ⟨failure', rfl, hstop⟩⟩ := rounds_of_pushRoots hcut
    · cases hstop
    · cases hstop
    · obtain rfl := Stop.failed.inj hstop
      exact ⟨rest, [], done, .failed failure, (List.append_nil rest).symm, rfl, hrounds, by simp,
        fun failure' hfailed => by rw [Stop.failed.inj hfailed]⟩
  · obtain ⟨done, last', hrounds, ⟨rfl, hstop⟩ | ⟨-, hstop⟩ | ⟨_, -, hstop⟩⟩ := rounds_of_pushRoots hfirst
    · obtain rfl := Stop.returned.inj hstop
      have hverify := @looks_verifyIfAsked codec asked (placements manifest.sources remoteRoots)
      have hquiet : changesOf last = [] := Looks.changesOf (hverify.bind fun _ => looks_pure _) hlast
      refine ⟨first, last, done, .returned (), rfl, hquiet, hrounds, fun summary hsummary => ⟨rfl, ?_⟩, by simp⟩
      subst hsummary
      obtain ⟨_, _, _, rfl, -, hreturned⟩ := exec_bind_returned hlast
      exact (exec_pure_returned hreturned).2
    · cases hstop
    · cases hstop

/-- A run starts in one way. -/
theorem Begins.unique {manifest' : LocalBatchManifest} {remoteRoots remoteRoots' : List Path} {rest rest' : AgentTrace}
    (h : Begins codec asked trace manifest remoteRoots rest) (h' : Begins codec asked trace manifest' remoteRoots' rest') :
    manifest = manifest' ∧ remoteRoots = remoteRoots' ∧ rest = rest' := by
  obtain ⟨looked, rfl, hlooked⟩ := h.split
  obtain ⟨looked', heq, hlooked'⟩ := h'.split
  obtain ⟨hfirst, htail⟩ := List.cons.inj heq
  obtain rfl := Except.ok.inj (eq_of_heq (Sigma.mk.inj hfirst).2)
  obtain ⟨-, hroots, hrest⟩ := hlooked.returned_unique hlooked' htail
  exact ⟨rfl, hroots, hrest⟩

end

/-- **A staged push goes in rounds.** Wherever a run with `--atomic` or `--if-changed`
stops, and whatever it has been answered: it has changed nothing, or it is rounds for
its roots in turn and behind them nothing that changes anything. A root is left out only
with `--if-changed`, by a comparison with its source that has found them the same; for
any other a round is a push to the root's staged path and then, if that was answered
well, the move to the root's place; a push or a move that was not is followed by no more
than the removal of the staged path, and the run fails. A run that returns has a full
round for every root, and reports their sums. -/
theorem staged_push_rounds (codec : Codec) (asked : PushArgs)
    (hstaged : asked.atomic = true ∨ asked.ifChanged = true) {trace : AgentTrace}
    {stop : Stop AgentCommandFailure PushSummary} (h : Exec (runAgentTransferPush codec asked) trace stop) :
    (changesOf trace = [] ∧ ∀ summary, stop ≠ .returned summary) ∨
      ∃ manifest remoteRoots rounds checks done last, Begins codec asked trace manifest remoteRoots (rounds ++ checks) ∧
        Rounds codec asked manifest (placements manifest.sources remoteRoots) rounds done last ∧ changesOf checks = [] ∧
        (∀ summary, stop = .returned summary → last = .returned () ∧ summary = asked.reports done) ∧
        ∀ failure, last = .failed failure → stop = .failed failure := by
  have hplain : ¬ (asked.atomic = false ∧ asked.ifChanged = false) := by
    rintro ⟨hatomic, hchanged⟩
    rw [hatomic, hchanged] at hstaged
    rcases hstaged with h | h <;> cases h
  rcases begins_of_exec h with hnone | ⟨manifest, remoteRoots, rest, hbegins, hgoes⟩
  · exact Or.inl hnone
  simp only [if_neg hplain] at hgoes
  obtain ⟨rounds, checks, done, last, rfl, hchecks, hrounds, hend⟩ := rounds_of_goes hgoes
  exact Or.inr ⟨manifest, remoteRoots, rounds, checks, done, last, hbegins, hrounds, hchecks, hend⟩

/-- A push of one file that is not there yet, to a daemon that does what it is asked. -/
def pushesOne : PushArgs := ⟨str "host:1", [str "a"], str "/b", none, true, false⟩

/-- A manifest of one file. -/
def oneFileManifest : LocalBatchManifest where
  sources := [.ofStr (str "a")]
  roots := [⟨str "a", .file, 0o644⟩]
  entries := [⟨0, [], .file, 0o644, 1⟩]
  files := [⟨0, .ofStr (str "a"), 1⟩]
  totalBytes := 1

/-- Answers to the calls of a push of it. -/
def doesOne : (c : AgentCall) → c.Answer
  | .buildManifest _ => .ok oneFileManifest
  | .localState _ _ => .ok ∅
  | .localRoots _ _ => .ok []
  | .request (.fsStat path _) => .ok (.fsStat ⟨path, false, none, none, none, none, none⟩)
  | .request (.fsMove source destination _) => .ok (.fsMoveResult ⟨source, destination, false⟩)
  | .request _ => .error (.bail (str "not asked"))
  | .push _ _ => .ok ⟨1, 1, false, none, false⟩
  | .pull _ _ => .error (.bail (str "not asked"))
  | .clock => some 5

/-- The one root is pushed and moved. -/
theorem staged_push_rounds_one : ∃ trace, Exec (runAgentTransferPush (.documented [] []) pushesOne) trace
      (.returned ⟨1, 1, false, none, false⟩) ∧
    ∃ manifest remoteRoots rounds checks done, Begins (.documented [] []) pushesOne trace manifest remoteRoots
        (rounds ++ checks) ∧
      Rounds (.documented [] []) pushesOne manifest (placements manifest.sources remoteRoots) rounds done (.returned ()) ∧
      changesOf checks = [] ∧ pushesOne.reports done = ⟨1, 1, false, none, false⟩ := by
  have hexec := Prog.exec_follow doesOne (runAgentTransferPush (.documented [] []) pushesOne)
  have hsummary : (Prog.follow doesOne (runAgentTransferPush (.documented [] []) pushesOne)).2 =
      .returned ⟨1, 1, false, none, false⟩ := rfl
  rw [hsummary] at hexec
  refine ⟨_, hexec, ?_⟩
  rcases staged_push_rounds _ _ (Or.inl rfl) hexec with
    ⟨-, hnot⟩ | ⟨manifest, roots, rounds, checks, done, last, hbegins, hrounds, hchecks, hend, -⟩
  · exact absurd rfl (hnot _)
  · obtain ⟨rfl, hreports⟩ := hend _ rfl
    exact ⟨manifest, roots, rounds, checks, done, hbegins, hrounds, hchecks, hreports.symm⟩

/-! ### Comparing -/

/-- Each root was compared with its source, and had what the source has. -/
inductive Compared (codec : Codec) (asked : PushArgs) (includeHash : Bool) : List Placement → AgentTrace → Prop where
  | nil : Compared codec asked includeHash [] []
  | cons {place : Placement} {places : List Placement} {first rest : AgentTrace}
      (hfirst : Exec (matchesRemote codec asked place includeHash) first (.returned true))
      (hrest : Compared codec asked includeHash places rest) :
    Compared codec asked includeHash (place :: places) (first ++ rest)

section

variable {codec : Codec} {asked : PushArgs} {manifest : LocalBatchManifest}

theorem Compared.changesOf {includeHash : Bool} {places : List Placement} {trace : AgentTrace}
    (h : Compared codec asked includeHash places trace) : changesOf trace = [] := by
  induction h with
  | nil => rfl
  | cons hfirst _ ih => rw [changesOf_append, (looks_matchesRemote includeHash).changesOf hfirst, ih, List.nil_append]

/-- Roots that are verified have been compared. -/
theorem compared_of_verifyRoots {mode : TransferVerifyMode} : ∀ {places : List Placement} {trace : AgentTrace},
    Exec (verifyRoots codec asked mode places) trace (.returned ()) →
      Compared codec asked (verifyUsesHash mode) places trace
  | [], trace, h => by
    obtain ⟨rfl, -⟩ := exec_pure_returned h
    exact .nil
  | place :: places, trace, h => by
    obtain ⟨verified, first, rest, rfl, hfirst, hrest⟩ := exec_bind_returned h
    cases verified with
    | true => exact .cons hfirst (compared_of_verifyRoots hrest)
    | false => cases hrest

theorem compared_of_verifyIfAsked {places : List Placement} {trace : AgentTrace}
    (h : Exec (verifyIfAsked codec asked places) trace (.returned ())) {mode : TransferVerifyMode}
    (hmode : asked.verify = some mode) : Compared codec asked (verifyUsesHash mode) places trace := by
  unfold verifyIfAsked at h
  rw [hmode] at h
  exact compared_of_verifyRoots h

theorem changedRoots_addAll (done : List (Option PushSummary)) : ∀ totals : PushTotals,
    (totals.addAll done).changedRoots = totals.changedRoots + (done.filterMap id).length := by
  induction done with
  | nil => exact fun _ => rfl
  | cons pushed done ih =>
    intro totals
    have hstep : totals.addAll (pushed :: done) = (pushed.elim totals totals.add).addAll done := rfl
    rw [hstep, ih]
    cases pushed with
    | none => rfl
    | some summary =>
      show totals.changedRoots + 1 + _ = totals.changedRoots + ((done.filterMap id).length + 1)
      omega

/-- Turns that have pushed nothing have compared every root, hashes included. -/
theorem compared_of_pushRoots (hchanged : asked.ifChanged = true) : ∀ {places : List Placement} {totals after : PushTotals}
    {trace : AgentTrace}, Exec (pushRoots codec asked manifest places totals) trace (.returned after) →
      after.changedRoots = totals.changedRoots → Compared codec asked true places trace
  | [], totals, after, trace, h, _ => by
    obtain ⟨rfl, -⟩ := exec_pure_returned h
    exact .nil
  | place :: places, totals, after, trace, h, hsame => by
    obtain ⟨pushed, first, rest, rfl, hfirst, hrest⟩ := exec_bind_returned h
    obtain ⟨done, last, -, ⟨-, hafter⟩ | ⟨-, hstop⟩ | ⟨_, -, hstop⟩⟩ := rounds_of_pushRoots hrest
    · have hcount := changedRoots_addAll done (pushed.elim totals totals.add)
      rw [← Stop.returned.inj hafter] at hcount
      cases pushed with
      | none =>
        obtain ⟨unchanged, looked, rest', rfl, hlooked, hturn⟩ := exec_bind_returned hfirst
        cases unchanged with
        | true =>
          obtain ⟨rfl, -⟩ := exec_pure_returned hturn
          rw [List.append_nil]
          unfold isUnchanged at hlooked
          rw [if_pos hchanged] at hlooked
          exact .cons hlooked (compared_of_pushRoots hchanged hrest hsame)
        | false =>
          obtain ⟨_, _, _, -, -, hend⟩ := exec_bind_returned hturn
          cases (exec_pure_returned hend).2
      | some summary =>
        have hmore : after.changedRoots = totals.changedRoots + 1 + (done.filterMap id).length := hcount
        omega
    · cases hstop
    · cases hstop

end

/-- A report of a push, and the comparisons it rests on: those of `--verify` behind the
last change, and those of `--if-changed` when nothing was to be pushed. -/
structure Justified (codec : Codec) (asked : PushArgs) (places : List Placement) (rest : AgentTrace)
    (summary : PushSummary) : Prop where
  verified : summary.verified = true → ∃ mode before compared, asked.verify = some mode ∧ rest = before ++ compared ∧
    Compared codec asked (verifyUsesHash mode) places compared
  skipped : summary.skipped = true → changesOf rest = [] ∧ ∃ compared after, rest = compared ++ after ∧
    Compared codec asked true places compared

/-- A run that returns has the comparisons its report rests on. -/
theorem justified_of_returned {codec : Codec} {asked : PushArgs} {trace : AgentTrace} {summary : PushSummary}
    (h : Exec (runAgentTransferPush codec asked) trace (.returned summary)) :
    ∃ manifest remoteRoots rest, Begins codec asked trace manifest remoteRoots rest ∧
      Justified codec asked (placements manifest.sources remoteRoots) rest summary := by
  rcases begins_of_exec h with ⟨-, hnot⟩ | ⟨manifest, remoteRoots, rest, hbegins, hgoes⟩
  · exact absurd rfl (hnot summary)
  refine ⟨manifest, remoteRoots, rest, hbegins, ?_⟩
  -- the last part of either way
  have hverified : ∀ {last : AgentTrace} {entries bytes : ℕ} {skipped : Bool}, Exec (do
        verifyIfAsked codec asked (placements manifest.sources remoteRoots)
        Prog.pure (asked.summary entries bytes skipped)) last (.returned summary) →
      summary = asked.summary entries bytes skipped ∧ changesOf last = [] ∧
        (summary.verified = true → ∃ mode, asked.verify = some mode ∧
          Compared codec asked (verifyUsesHash mode) (placements manifest.sources remoteRoots) last) := by
    intro last entries bytes skipped hlast
    obtain ⟨_, looked, end', rfl, hlooked, hend⟩ := exec_bind_returned hlast
    obtain ⟨rfl, rfl⟩ := exec_pure_returned hend
    rw [List.append_nil]
    refine ⟨rfl, (looks_verifyIfAsked _).changesOf hlooked, fun hsome => ?_⟩
    obtain ⟨mode, hmode⟩ := Option.isSome_iff_exists.mp (show asked.verify.isSome = true from hsome)
    exact ⟨mode, hmode, compared_of_verifyIfAsked hlooked hmode⟩
  simp only at hgoes
  split at hgoes
  · obtain ⟨answer, rest', rfl, hpushed⟩ := Prog.exec_ask_returned hgoes
    cases answer with
    | error err => cases hpushed
    | ok pushed =>
      obtain ⟨rfl, hquiet, hcompared⟩ := hverified hpushed
      refine ⟨fun hsome => ?_, fun hskipped => by cases hskipped⟩
      obtain ⟨mode, hmode, hcompared⟩ := hcompared hsome
      exact ⟨mode, [_], rest', hmode, rfl, hcompared⟩
  · obtain ⟨totals, first, last, rfl, hfirst, hlast⟩ := exec_bind_returned hgoes
    obtain ⟨rfl, hquiet, hcompared⟩ := hverified hlast
    refine ⟨fun hsome => ?_, fun hskipped => ?_⟩
    · obtain ⟨mode, hmode, hcompared⟩ := hcompared hsome
      exact ⟨mode, first, last, hmode, rfl, hcompared⟩
    · obtain ⟨hchanged, hnone⟩ := (Bool.and_eq_true _ _).mp (show (asked.ifChanged && _) = true from hskipped)
      have hzero : totals.changedRoots = 0 := of_decide_eq_true hnone
      have hall := compared_of_pushRoots hchanged hfirst hzero
      exact ⟨by rw [changesOf_append, hall.changesOf, hquiet, List.nil_append], first, last, rfl, hall⟩

end Agent

end Client

end Rsdb
