/-
# The grammar of the exec events

Whatever bytes arrive after the request of a streamed exec, the loop accepts some
frames of output (`Accepts`) and stops at the first read that gives it none
(`Ends`). `exec_events` says what it has printed by then: an event for each
payload it has accepted, the output of a result that came whole, and one event
that ends the exec, which tells of completion exactly when the code is 0.
-/
import Rsdb.Client.ExecStream

namespace Rsdb

namespace Client

/-! ### The frames that are accepted -/

/-- The channel of a frame of output for this exec. -/
def acceptedChannel (header : FrameHeader) : Option StreamChannel :=
  match decodeStreamFrameHeader header with
  | .error _ => none
  | .ok chunk => if chunk.requestId = clientRequestId then some chunk.channel else none

/-- From the bytes and the buffer at the left these frames of output are read, and
the bytes and the buffer at the right are left. -/
inductive Accepts : Bytes → Bytes → List (StreamChannel × Bytes) → Bytes → Bytes → Prop where
  | none {input buf : Bytes} : Accepts input buf [] input buf
  | frame {input buf rest payload rest' buf' : Bytes} {header : FrameHeader} {channel : StreamChannel}
      {frames : List (StreamChannel × Bytes)} (hread : readFrameInto input buf = (.ok header, rest, payload))
      (haccepted : acceptedChannel header = some channel) (h : Accepts rest payload frames rest' buf') :
      Accepts input buf ((channel, payload) :: frames) rest' buf'

/-- The next read gives no frame of output. -/
def Ends (input buf : Bytes) : Prop :=
  ∀ header rest payload, readFrameInto input buf = (.ok header, rest, payload) → acceptedChannel header = none

/-- All that can be accepted is in the frames before the end. -/
theorem Accepts.prefix_of_ends {input buf rest buf' : Bytes} {frames : List (StreamChannel × Bytes)}
    (h : Accepts input buf frames rest buf') (hends : Ends rest buf') {rest₁ buf₁ : Bytes}
    {frames₁ : List (StreamChannel × Bytes)} (h₁ : Accepts input buf frames₁ rest₁ buf₁) : frames₁ <+: frames := by
  induction h₁ generalizing frames with
  | none => exact List.nil_prefix
  | frame hread₁ haccepted₁ _ ih =>
    cases h with
    | none =>
      rw [hends _ _ _ hread₁] at haccepted₁
      cases haccepted₁
    | frame hread haccepted h =>
      rw [hread₁] at hread
      obtain ⟨hheader, hleft⟩ := Prod.mk.inj hread
      obtain ⟨rfl, rfl⟩ := Prod.mk.inj hleft
      obtain rfl := Except.ok.inj hheader
      rw [haccepted₁] at haccepted
      obtain rfl := Option.some.inj haccepted
      exact List.cons_prefix_cons.mpr ⟨rfl, ih h⟩

/-! ### The events -/

/-- What an event shows: a channel, the target it names and a text. -/
def AgentEvent.output? : AgentEvent → Option (StreamChannel × Option Str × Str)
  | .stdout target chunk => some (.stdout, target, chunk)
  | .stderr target chunk => some (.stderr, target, chunk)
  | .completed _ _ _ | .failed _ => none

/-- An event of output. -/
def AgentEvent.IsOutput : AgentEvent → Prop
  | .stdout _ _ | .stderr _ _ => True
  | .completed _ _ _ | .failed _ => False

/-- The event of completion. -/
def AgentEvent.IsCompleted : AgentEvent → Prop
  | .completed _ _ _ => True
  | _ => False

section

variable (codec : Codec) (asked : ExecArgs)

/-- The events of the output that is accepted. -/
def outputEvents (frames : List (StreamChannel × Bytes)) : List AgentEvent :=
  frames.flatMap fun frame => chunkEvents asked frame.1 frame.2

/-- The events show these texts, each on its channel, and nothing else. -/
def Shows (events : List AgentEvent) (texts : List (StreamChannel × Str)) : Prop :=
  events.map AgentEvent.output? = texts.map fun text => some (text.1, asked.responseTarget, text.2)

/-- The payloads on the two channels of output that are not empty, as text. -/
def outputTexts (frames : List (StreamChannel × Bytes)) : List (StreamChannel × Str) :=
  (frames.filter fun frame => (frame.1 = .stdout ∨ frame.1 = .stderr) ∧ frame.2 ≠ []).map fun frame =>
    (frame.1, utf8Lossy frame.2)

/-- The texts of a result that are not empty. -/
def resultTexts (stdout stderr : Str) : List (StreamChannel × Str) :=
  [(StreamChannel.stdout, stdout), (.stderr, stderr)].filter fun text => text.2 ≠ []

/-- The next read gives a response that is a result. -/
def ResultArrives (input buf : Bytes) (status : ℤ) (stdout stderr : Str) (timedOut : Bool) : Prop :=
  ∃ header rest payload, readFrameInto input buf = (.ok header, rest, payload) ∧ header.kind = .response ∧
    decodeJson codec.decodeResponse ⟨header, payload⟩ .response = .ok (.execResult status stdout stderr timedOut)

/-- A result arrives that `check` does not turn into a failure. -/
def ExecCompletes (input buf : Bytes) : Prop :=
  ∃ status stdout stderr timedOut, ResultArrives codec input buf status stdout stderr timedOut ∧
    ¬ (asked.check = true ∧ status ≠ 0)

/-- How the exec ends, at the read that gives no frame of output: some more output,
and the last event. -/
structure EndsWith (input buf : Bytes) (printed : List AgentEvent × ℤ) (output : List AgentEvent) (last : AgentEvent) :
    Prop where
  events : printed.1 = output ++ [last]
  shows : ∀ event ∈ output, event.IsOutput
  result : ∀ status stdout stderr timedOut, ResultArrives codec input buf status stdout stderr timedOut →
    Shows asked output (resultTexts stdout stderr)
  noResult : (∀ status stdout stderr timedOut, ¬ ResultArrives codec input buf status stdout stderr timedOut) →
    output = []
  ends : ¬ last.IsOutput
  code : printed.2 = 0 ↔ last.IsCompleted
  completed : last.IsCompleted ↔ ExecCompletes codec asked input buf

variable {codec asked}

theorem outputEvents_cons (frame : StreamChannel × Bytes) (frames : List (StreamChannel × Bytes)) :
    outputEvents asked (frame :: frames) = chunkEvents asked frame.1 frame.2 ++ outputEvents asked frames :=
  List.flatMap_cons

theorem isOutput_chunkEvents (channel : StreamChannel) (payload : Bytes) :
    ∀ event ∈ chunkEvents asked channel payload, event.IsOutput := by
  intro event hevent
  unfold chunkEvents at hevent
  split at hevent
  · cases hevent
  · cases channel <;> simp at hevent <;> simp [hevent, AgentEvent.IsOutput]

/-- The events of the frames show their texts. -/
theorem shows_outputEvents : ∀ frames : List (StreamChannel × Bytes),
    Shows asked (outputEvents asked frames) (outputTexts frames)
  | [] => rfl
  | (channel, payload) :: frames => by
    have ih := shows_outputEvents frames
    unfold Shows outputTexts at ih ⊢
    rw [outputEvents_cons, List.map_append, ih]
    unfold chunkEvents
    by_cases hpayload : payload = []
    · simp [hpayload]
    · cases channel <;> simp [hpayload, AgentEvent.output?]

/-- The events of a result show its texts. -/
theorem shows_result (stdout stderr : Str) :
    Shows asked (shownOutput asked .stdout stdout ++ shownOutput asked .stderr stderr) (resultTexts stdout stderr) := by
  unfold Shows shownOutput resultTexts
  by_cases hout : stdout = [] <;> by_cases herr : stderr = [] <;> simp [hout, herr, AgentEvent.output?]

theorem isOutput_shown (event : Option Str → Str → AgentEvent) (h : ∀ target text, (event target text).IsOutput)
    (text : Str) : ∀ e ∈ shownOutput asked event text, e.IsOutput := by
  intro e he
  unfold shownOutput at he
  split at he
  · cases he
  · obtain rfl := List.mem_singleton.mp he
    exact h _ _

/-- A failure that is no failed check. -/
theorem endsWith_failed {input buf : Bytes} (failure : AgentCommandFailure)
    (h : ∀ status stdout stderr timedOut, ¬ ResultArrives codec input buf status stdout stderr timedOut) :
    EndsWith codec asked input buf (failedWith failure) [] (.failed failure) where
  events := rfl
  shows := by simp
  result status stdout stderr timedOut hresult := absurd hresult (h status stdout stderr timedOut)
  noResult _ := rfl
  ends := id
  code := iff_of_false Int.one_ne_zero id
  completed := iff_of_false id fun ⟨status, stdout, stderr, timedOut, hresult, _⟩ =>
    h status stdout stderr timedOut hresult

/-- A read that gives no response has no result arrive. -/
theorem not_arrives {input buf : Bytes}
    (h : ∀ header rest payload, readFrameInto input buf = (.ok header, rest, payload) → header.kind = .response →
      ∀ status stdout stderr timedOut, decodeJson codec.decodeResponse ⟨header, payload⟩ .response ≠
        .ok (.execResult status stdout stderr timedOut)) (status : ℤ) (stdout stderr : Str) (timedOut : Bool) :
    ¬ ResultArrives codec input buf status stdout stderr timedOut := by
  rintro ⟨header, rest, payload, hread, hkind, hdecode⟩
  exact h header rest payload hread hkind status stdout stderr timedOut hdecode

theorem resultArrives_iff {input buf rest payload : Bytes} {header : FrameHeader} {response : ControlResponse}
    (hread : readFrameInto input buf = (.ok header, rest, payload)) (hkind : header.kind = .response)
    (hdecode : decodeJson codec.decodeResponse ⟨header, payload⟩ .response = .ok response)
    {status : ℤ} {stdout stderr : Str} {timedOut : Bool} :
    ResultArrives codec input buf status stdout stderr timedOut ↔
      response = .execResult status stdout stderr timedOut := by
  constructor
  · rintro ⟨header', rest', payload', hread', -, hdecode'⟩
    rw [hread] at hread'
    obtain ⟨hheader, hleft⟩ := Prod.mk.inj hread'
    obtain rfl := Except.ok.inj hheader
    obtain ⟨rfl, rfl⟩ := Prod.mk.inj hleft
    exact Except.ok.inj (hdecode.symm.trans hdecode')
  · intro h
    exact ⟨header, rest, payload, hread, hkind, h ▸ hdecode⟩

/-- A result ends the exec with its output, and as `check` has it. -/
theorem endsWith_result {input buf : Bytes} {status : ℤ} {stdout stderr : Str} {timedOut : Bool}
    (h : ∀ status' stdout' stderr' timedOut', ResultArrives codec input buf status' stdout' stderr' timedOut' ↔
      ControlResponse.execResult status stdout stderr timedOut = .execResult status' stdout' stderr' timedOut') :
    ∃ output last, EndsWith codec asked input buf
      (responseEvents codec asked (.execResult status stdout stderr timedOut)) output last := by
  have hshows : ∀ event ∈ shownOutput asked .stdout stdout ++ shownOutput asked .stderr stderr, event.IsOutput := by
    intro event hevent
    rcases List.mem_append.mp hevent with hevent | hevent
    · exact isOutput_shown .stdout (fun _ _ => trivial) stdout _ hevent
    · exact isOutput_shown .stderr (fun _ _ => trivial) stderr _ hevent
  have hcompletes : ExecCompletes codec asked input buf ↔ ¬ (asked.check = true ∧ status ≠ 0) := by
    constructor
    · rintro ⟨status', _, _, _, harrives, hunchecked⟩
      obtain ⟨rfl, -⟩ := ControlResponse.execResult.inj ((h _ _ _ _).mp harrives)
      exact hunchecked
    · intro hunchecked
      exact ⟨status, stdout, stderr, timedOut, (h _ _ _ _).mpr rfl, hunchecked⟩
  have htexts : ∀ status' stdout' stderr' timedOut', ResultArrives codec input buf status' stdout' stderr' timedOut' →
      Shows asked (shownOutput asked .stdout stdout ++ shownOutput asked .stderr stderr) (resultTexts stdout' stderr') := by
    intro status' stdout' stderr' timedOut' harrives
    obtain ⟨-, rfl, rfl, -⟩ := ControlResponse.execResult.inj ((h _ _ _ _).mp harrives)
    exact shows_result stdout stderr
  have hnone : (∀ status' stdout' stderr' timedOut', ¬ ResultArrives codec input buf status' stdout' stderr' timedOut') →
      shownOutput asked .stdout stdout ++ shownOutput asked .stderr stderr = [] := fun hno =>
    absurd ((h _ _ _ _).mpr rfl) (hno status stdout stderr timedOut)
  unfold responseEvents
  by_cases hcheck : asked.check = true ∧ status ≠ 0
  · refine ⟨_, .failed (execNonzeroFailure asked.target status timedOut none none), ?_, hshows, htexts, hnone, id, ?_, ?_⟩
    · simp only [if_pos hcheck]
    · simp only [if_pos hcheck]
      exact iff_of_false hcheck.2 id
    · exact iff_of_false id fun hdone => hcompletes.mp hdone hcheck
  · refine ⟨_, .completed asked.responseTarget status timedOut, ?_, hshows, htexts, hnone, id, ?_, ?_⟩
    · simp only [if_neg hcheck]
    · simp only [if_neg hcheck]
      exact iff_of_true trivial trivial
    · exact iff_of_true trivial (hcompletes.mpr hcheck)

theorem endsWith_response {input buf rest payload : Bytes} {header : FrameHeader} {response : ControlResponse}
    (hread : readFrameInto input buf = (.ok header, rest, payload)) (hkind : header.kind = .response)
    (hdecode : decodeJson codec.decodeResponse ⟨header, payload⟩ .response = .ok response) :
    ∃ output last, EndsWith codec asked input buf (responseEvents codec asked response) output last := by
  have harrives := @resultArrives_iff codec _ _ _ _ _ _ hread hkind hdecode
  have hfailed : (∀ status stdout stderr timedOut, response ≠ .execResult status stdout stderr timedOut) →
      ∀ failure, ∃ output last, EndsWith codec asked input buf (failedWith failure) output last := by
    intro hother failure
    refine ⟨[], _, endsWith_failed failure ?_⟩
    intro status stdout stderr timedOut hresult
    exact hother _ _ _ _ (harrives.mp hresult)
  cases response with
  | execResult status stdout stderr timedOut => exact endsWith_result fun _ _ _ _ => harrives
  | _ => exact hfailed (by simp) _

/-! ### The loop -/

/-- What the loop prints and returns, from the bytes and the buffer it has. -/
def Grammar (codec : Codec) (asked : ExecArgs) (input buf : Bytes) (printed : List AgentEvent × ℤ) : Prop :=
  ∃ frames rest buf' ended output last, Accepts input buf frames rest buf' ∧ Ends rest buf' ∧
    printed = (outputEvents asked frames ++ ended.1, ended.2) ∧ EndsWith codec asked rest buf' ended output last

/-- The loop stops at this read. -/
theorem grammar_of_ends {input buf : Bytes} {printed : List AgentEvent × ℤ} (hends : Ends input buf)
    (h : ∃ output last, EndsWith codec asked input buf printed output last) : Grammar codec asked input buf printed := by
  obtain ⟨output, last, h⟩ := h
  exact ⟨[], input, buf, printed, output, last, .none, hends, rfl, h⟩

/-- A frame of output, and then the rest of the loop. -/
theorem grammar_frame {input buf rest payload : Bytes} {header : FrameHeader} {channel : StreamChannel}
    {printed : List AgentEvent × ℤ} (hread : readFrameInto input buf = (.ok header, rest, payload))
    (haccepted : acceptedChannel header = some channel) (h : Grammar codec asked rest payload printed) :
    Grammar codec asked input buf (chunkEvents asked channel payload ++ printed.1, printed.2) := by
  obtain ⟨frames, rest', buf', ended, output, last, haccepts, hends, rfl, hended⟩ := h
  refine ⟨_, rest', buf', ended, output, last, .frame hread haccepted haccepts, hends, ?_, hended⟩
  rw [outputEvents_cons, List.append_assoc]

/-- A read that fails. -/
theorem grammar_unread {input buf : Bytes} (failure : AgentCommandFailure)
    (h : ∀ header rest payload, readFrameInto input buf ≠ (.ok header, rest, payload)) :
    Grammar codec asked input buf (failedWith failure) := by
  have hends : Ends input buf := fun header rest payload hread => absurd hread (h header rest payload)
  refine grammar_of_ends hends ⟨[], _, endsWith_failed failure (not_arrives ?_)⟩
  exact fun header rest payload hread => absurd hread (h header rest payload)

/-- A frame that is neither output nor a response that can be read. -/
theorem grammar_refused {input buf rest payload : Bytes} {header : FrameHeader} (failure : AgentCommandFailure)
    (hread : readFrameInto input buf = (.ok header, rest, payload)) (hrefused : acceptedChannel header = none)
    (hresponse : ∀ response, decodeJson codec.decodeResponse ⟨header, payload⟩ .response ≠ .ok response) :
    Grammar codec asked input buf (failedWith failure) := by
  have hsame : ∀ header' rest' payload', readFrameInto input buf = (.ok header', rest', payload') →
      header' = header ∧ payload' = payload := by
    intro header' rest' payload' hread'
    rw [hread] at hread'
    obtain ⟨hheader, hleft⟩ := Prod.mk.inj hread'
    exact ⟨(Except.ok.inj hheader).symm, (Prod.mk.inj hleft).2.symm⟩
  have hends : Ends input buf := by
    intro header' rest' payload' hread'
    rw [(hsame _ _ _ hread').1]
    exact hrefused
  refine grammar_of_ends hends ⟨[], _, endsWith_failed failure (not_arrives ?_)⟩
  intro header' rest' payload' hread' _ status stdout stderr timedOut
  obtain ⟨rfl, rfl⟩ := hsame _ _ _ hread'
  exact hresponse _

theorem execStreamLoop_grammar : ∀ (fuel : ℕ) (input buf : Bytes), input.length ≤ fuel →
    Grammar codec asked input buf (execStreamLoop codec asked fuel input buf)
  | 0, input, buf, hfuel => by
    refine grammar_unread _ fun header rest payload hread => ?_
    have hlen := readFrameInto_length hread
    unfold headerLen at hlen
    omega
  | fuel + 1, input, buf, hfuel => by
    unfold execStreamLoop
    split
    · rename_i err left hread
      refine grammar_unread _ fun header rest payload hread' => ?_
      rw [hread] at hread'
      cases (Prod.mk.inj hread').1
    · rename_i header rest payload hread
      have hlen := readFrameInto_length hread
      unfold headerLen at hlen
      have hnone : header.kind ≠ .response → ∀ response,
          decodeJson codec.decodeResponse ⟨header, payload⟩ .response ≠ .ok response := by
        intro hkind response
        rw [decodeJson, if_pos hkind]
        exact fun h => by cases h
      split
      · -- a stream frame
        rename_i hkind
        have hno := hnone (by rw [hkind]; decide)
        split
        · rename_i err hdecode
          exact grammar_refused _ hread (by rw [acceptedChannel, hdecode]) hno
        · rename_i chunk hdecode
          split
          · rename_i hid
            exact grammar_refused _ hread (by simp only [acceptedChannel, hdecode, if_neg hid]) hno
          · rename_i hid
            have haccepted : acceptedChannel header = some chunk.channel := by
              simp only [acceptedChannel, hdecode, if_pos (not_not.mp hid)]
            exact grammar_frame hread haccepted (execStreamLoop_grammar fuel rest payload (by omega))
      · -- a response
        rename_i hkind
        have hrefused : acceptedChannel header = none := by
          rw [acceptedChannel, decodeStreamFrameHeader, if_pos (by rw [hkind]; decide)]
        split
        · rename_i err hdecode
          refine grammar_refused _ hread hrefused fun response hresponse => ?_
          rw [hdecode] at hresponse
          cases hresponse
        · rename_i response hdecode
          refine grammar_of_ends (fun header' rest' payload' hread' => ?_) (endsWith_response hread hkind hdecode)
          rw [hread] at hread'
          obtain rfl := Except.ok.inj (Prod.mk.inj hread').1
          exact hrefused
      · rename_i hstream hresponse
        refine grammar_refused _ hread ?_ (hnone hresponse)
        rw [acceptedChannel, decodeStreamFrameHeader, if_pos hstream]

/-- **The grammar of the exec events.** Whatever the daemon sends, and wherever it
stops: the loop prints an event for each payload of output that is not empty, with its
channel, the target that was asked and its text, in the order they came; then the
texts of the result, if one is read next, that are not empty; and one last event. The
code is 0 exactly when that is the completion, and that is exactly when the frames of
output are followed by a result that `check` does not refuse. -/
theorem exec_events (codec : Codec) (asked : ExecArgs) (input : Bytes) :
    ∃ frames rest buf shown output last, Accepts input [] frames rest buf ∧
      (∀ frames' rest' buf', Accepts input [] frames' rest' buf' → frames' <+: frames) ∧
      (runAgentExecStream codec asked input).1 = shown ++ output ++ [last] ∧
      Shows asked shown (outputTexts frames) ∧
      (∀ status stdout stderr timedOut, ResultArrives codec rest buf status stdout stderr timedOut →
        Shows asked output (resultTexts stdout stderr)) ∧
      ((∀ status stdout stderr timedOut, ¬ ResultArrives codec rest buf status stdout stderr timedOut) → output = []) ∧
      (∀ event ∈ shown ++ output, event.IsOutput) ∧ ¬ last.IsOutput ∧
      ((runAgentExecStream codec asked input).2 = 0 ↔ last.IsCompleted) ∧
      (last.IsCompleted ↔ ExecCompletes codec asked rest buf) := by
  have hgrammar : Grammar codec asked input [] (runAgentExecStream codec asked input) :=
    execStreamLoop_grammar input.length input [] (Nat.le_refl _)
  obtain ⟨frames, rest, buf, ended, output, last, haccepts, hends, hprinted, h⟩ := hgrammar
  rw [hprinted]
  refine ⟨frames, rest, buf, outputEvents asked frames, output, last, haccepts, ?_, ?_, shows_outputEvents frames,
    h.result, h.noResult, ?_, h.ends, h.code, h.completed⟩
  · exact fun frames' rest' buf' haccepts' => haccepts.prefix_of_ends hends haccepts'
  · rw [h.events, List.append_assoc]
  · intro event hevent
    rcases List.mem_append.mp hevent with hevent | hevent
    · obtain ⟨frame, -, hevent⟩ := List.mem_flatMap.mp hevent
      exact isOutput_chunkEvents frame.1 frame.2 event hevent
    · exact h.shows event hevent

end

end Client

end Rsdb
