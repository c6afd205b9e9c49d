/-
# What `exec.timeout` says

The agent tells a timeout from other failures by the code of the daemon's error
and, for `ExecFailed`, by its text: one that holds `timed out` counts as a timeout
too. The text of a command that cannot be started holds the command, and that of a
read that fails what the operating system says.

`exec_timeout_iff` goes from the request to the code the agent reports, for both
kinds of exec. A streamed exec that is cancelled inside a frame leaves the
connection garbled; the client then stops with another code, whatever the frame
was and wherever it was cut (`failureCode_cut`).
-/
import Rsdb.Proto.CutFrame
import Rsdb.Client.ExecStream

namespace Rsdb

namespace Client

open Daemon Prog Session

/-! ### The responses that are sent -/

/-- The bytes of a short response. -/
theorem responseFrame_bytes {json : ControlResponse → Bytes} {response : ControlResponse}
    (h : (json response).length < 256) :
    (responseFrame json clientRequestId response).bytes =
      responseBytes (UInt8.ofNat (json response).length) (json response) := by
  have hsmall : (json response).length / 256 = 0 := Nat.div_eq_of_lt h
  have hlen : (UInt32.ofNat (json response).length).toNat = (json response).length :=
    UInt32.toNat_ofNat_of_lt' (by unfold UInt32.size; omega)
  have hbytes : leBytes 4 (json response).length = [UInt8.ofNat (json response).length, 0, 0, 0] := by
    simp [leBytes, hsmall]
  show (frameHeader .response 0 clientRequestId (json response)).encode.1 ++ json response = _
  unfold FrameHeader.encode
  simp only [frameHeader, hlen, hbytes]
  rfl

theorem jsonEscape_digits {text : Str} (h : ∀ b ∈ text, 48 ≤ b.toNat ∧ b.toNat ≤ 57) : text.flatMap jsonEscape = text := by
  have hescape : ∀ b ∈ text, jsonEscape b = [b] := by
    intro b hb
    obtain ⟨hlo, hhi⟩ := h b hb
    have hne : ∀ c : UInt8, c.toNat < 48 ∨ 57 < c.toNat → b ≠ c := by
      rintro c hc rfl
      omega
    have hlt : ¬ b < 32 := by
      rw [UInt8.lt_iff_toNat_lt]
      show ¬ b.toNat < 32
      omega
    unfold jsonEscape
    rw [if_neg (hne _ (by decide)), if_neg (hne _ (by decide)), if_neg (hne _ (by decide)), if_neg (hne _ (by decide)),
      if_neg (hne _ (by decide)), if_neg (hne _ (by decide)), if_neg (hne _ (by decide)), if_neg hlt]
  rw [List.flatMap_congr hescape]
  simp

theorem timeoutResponse_json (secs : ℕ) : (timeoutResponse secs).json =
    str "\x7b\"type\":\"error\",\"code\":\"exec_timeout\",\"message\":\"command timed out after " ++
      (decimal secs ++ str " seconds\"\x7d") := by
  have hdigits : (decimal secs).flatMap jsonEscape = decimal secs := jsonEscape_digits fun b => digit_of_mem_decimal
  have hmessage : jsonString (str "command timed out after " ++ decimal secs ++ str " seconds") =
      str "\"command timed out after " ++ (decimal secs ++ str " seconds\"") := by
    rw [jsonString, List.flatMap_append, List.flatMap_append, hdigits]
    simp only [List.append_assoc]
    rfl
  show jsonTagged "error" [(str "code", ErrorCode.execTimeout.json), (str "message", jsonString _)] = _
  rw [hmessage]
  simp only [jsonTagged, jsonObject, jsonCommas, List.map_cons, List.map_nil, List.append_assoc, List.cons_append]
  rfl

theorem resultResponse_json (status : Option Int32) : (resultResponse status).json =
    str "\x7b\"type\":\"exec_result\",\"status\":" ++
      (jsonInt (exitCode status) ++ str ",\"stdout\":\"\",\"stderr\":\"\",\"timed_out\":false\x7d") := by
  show jsonTagged "exec_result" [(str "status", jsonInt _), (str "stdout", jsonString []), (str "stderr", jsonString []),
    (str "timed_out", jsonBool false)] = _
  simp only [jsonTagged, jsonObject, jsonCommas, List.map_cons, List.map_nil, List.append_assoc, List.cons_append]
  rfl

/-- No capital `R` stands in a number. -/
theorem notMem_decimal (n : ℕ) : 82 ∉ decimal n := by
  intro h
  have hdigit := digit_of_mem_decimal h
  exact absurd hdigit.2 (by decide)

theorem notMem_timeoutResponse (secs : ℕ) : 82 ∉ (timeoutResponse secs).json := by
  rw [timeoutResponse_json, List.mem_append, List.mem_append, not_or, not_or]
  exact ⟨by decide, notMem_decimal secs, by decide⟩

theorem timeoutResponse_length {secs : ℕ} (h : secs < 2 ^ 64) :
    84 ≤ (timeoutResponse secs).json.length ∧ (timeoutResponse secs).json.length ≤ 103 := by
  have hpos := decimal_length_pos secs
  have hle : (decimal secs).length ≤ 20 := decimal_length_le (by decide) (lt_trans h (by decide))
  have hhead : (str "\x7b\"type\":\"error\",\"code\":\"exec_timeout\",\"message\":\"command timed out after ").length = 73 := rfl
  have htail : (str " seconds\"\x7d").length = 10 := rfl
  rw [timeoutResponse_json, List.length_append, List.length_append, hhead, htail]
  omega

theorem exitCode_bounds (status : Option Int32) : -2 ^ 31 ≤ exitCode status ∧ exitCode status < 2 ^ 31 :=
  ⟨Int32.le_toInt _, Int32.toInt_lt _⟩

theorem jsonInt_length_le {n : ℤ} (h : -2 ^ 31 ≤ n ∧ n < 2 ^ 31) : (jsonInt n).length ≤ 11 := by
  cases n with
  | ofNat n =>
    have hle : (decimal n).length ≤ 10 := decimal_length_le (by decide) (by simp only [Int.ofNat_eq_natCast] at h; omega)
    exact hle.trans (by decide)
  | negSucc n =>
    have hle : (decimal (n + 1)).length ≤ 10 := decimal_length_le (by decide) (by omega)
    have hsign : (str "-").length = 1 := rfl
    rw [jsonInt, List.length_append, hsign]
    omega

theorem resultResponse_length (status : Option Int32) : (resultResponse status).json.length < 256 := by
  have hstatus := jsonInt_length_le (exitCode_bounds status)
  have hhead : (str "\x7b\"type\":\"exec_result\",\"status\":").length = 31 := rfl
  have htail : (str ",\"stdout\":\"\",\"stderr\":\"\",\"timed_out\":false\x7d").length = 43 := rfl
  rw [resultResponse_json, List.length_append, List.length_append, hhead, htail]
  omega

/-! ### Texts that are no JSON -/

/-- What a JSON text looks like that is read as a message: an object or an array,
maybe with white space around it, and no zero byte. -/
structure JsonText (text : Bytes) : Prop where
  zero : 0 ∉ text
  begins : ∃ b ∈ [9, 10, 13, 32, 91, 123], text.head? = some b
  ends : ∃ b ∈ [9, 10, 13, 32, 93, 125], text.getLast? = some b

/-- The head of a response behind something else. -/
theorem not_jsonText_append {before text : Bytes} {length : UInt8} {n : ℕ} :
    ¬ JsonText (before ++ (responseBytes length text).take (n + 1)) := by
  intro h
  by_cases hn : n < 5
  · obtain ⟨b, hmem, hlast⟩ := h.ends
    have hbytes : ((responseBytes length text).take (n + 1)).getLast? = ([82, 83, 68, 66, 2] : Bytes)[n]? := by
      interval_cases n <;> rfl
    rw [List.getLast?_append_of_ne_nil _ (by simp [responseBytes]), hbytes] at hlast
    have hmem' := List.mem_of_getElem? hlast
    revert hmem hmem'
    simp only [List.mem_cons, List.not_mem_nil, or_false]
    rintro (rfl | rfl | rfl | rfl | rfl | rfl) <;> decide
  · refine h.zero (List.mem_append_right _ ?_)
    have hzero : (responseBytes length text)[5]? = some 0 := rfl
    exact List.mem_of_getElem? ((List.getElem?_take_of_lt (by omega)).trans hzero)

theorem not_jsonText_of_head {payload : Bytes}
    (h : payload = [] ∨ ∃ b ∈ [83, 68, 66, 2, 0, 1], payload.head? = some b) : ¬ JsonText payload := by
  intro htext
  obtain ⟨b, hmem, hhead⟩ := htext.begins
  rcases h with rfl | ⟨b', hmem', hhead'⟩
  · cases hhead
  · obtain rfl := Option.some.inj (hhead.symm.trans hhead')
    revert hmem hmem'
    simp only [List.mem_cons, List.not_mem_nil, or_false]
    rintro (rfl | rfl | rfl | rfl | rfl | rfl) <;> decide

/-! ### The code of a failure -/

/-- The code in the last event, if that is a failure. -/
def failureCode (printed : List AgentEvent × ℤ) : Option Str :=
  match printed.1.getLast? with
  | some (.failed failure) => some failure.code
  | _ => none

/-- The daemon's JSON parser: it reads the answer of the run, gives nothing else
for a result, and reads objects and arrays only. -/
structure ReadsExec (codec : Codec) (answer : ControlResponse) : Prop where
  printed : codec.response = ControlResponse.json
  answers : codec.decodeResponse answer.json = .ok answer
  results : ∀ status response, codec.decodeResponse (resultResponse status).json = .ok response →
    response = resultResponse status
  texts : ∀ text response, codec.decodeResponse text = .ok response → JsonText text

theorem ReadsExec.decodes {codec : Codec} {answer : ControlResponse} (h : ReadsExec codec answer) :
    codec.decodeResponse (codec.response answer) = .ok answer := by
  rw [h.printed]
  exact h.answers

section

variable {codec : Codec} {asked : ExecArgs}

/-- The loop comes to this code from these bytes, whatever the buffer holds. -/
def ComesTo (codec : Codec) (asked : ExecArgs) (input : Bytes) (p : Option Str → Prop) : Prop :=
  ∀ fuel buf, input.length ≤ fuel → p (failureCode (execStreamLoop codec asked fuel input buf)) ∧
    (execStreamLoop codec asked fuel input buf).1 ≠ []

/-- The code of what went wrong on this side. -/
def internalCode : Str := str "internal.error"

theorem ComesTo.mono {input : Bytes} {p q : Option Str → Prop} (h : ComesTo codec asked input p)
    (hpq : ∀ code, p code → q code) : ComesTo codec asked input q :=
  fun fuel buf hfuel => ⟨hpq _ (h fuel buf hfuel).1, (h fuel buf hfuel).2⟩

theorem comesTo_unframed {input : Bytes} (h : Unframed input) :
    ComesTo codec asked input (· = some internalCode) := by
  intro fuel buf _
  cases fuel with
  | zero => exact ⟨rfl, List.cons_ne_nil _ _⟩
  | succ fuel =>
    unfold execStreamLoop
    split
    · exact ⟨rfl, List.cons_ne_nil _ _⟩
    · rename_i hread
      exact absurd hread (h _ _ _ _)

/-- Output before the last event does not change the code. -/
theorem failureCode_append (output : List AgentEvent) {printed : List AgentEvent × ℤ} (h : printed.1 ≠ []) :
    failureCode (output ++ printed.1, printed.2) = failureCode printed := by
  unfold failureCode
  rw [List.getLast?_append_of_ne_nil _ h]

theorem responseEvents_ne_nil (response : ControlResponse) : (responseEvents codec asked response).1 ≠ [] := by
  unfold responseEvents
  split
  · simp only
    split
    · exact List.append_ne_nil_of_right_ne_nil _ (List.cons_ne_nil _ _)
    · exact List.append_ne_nil_of_right_ne_nil _ (List.cons_ne_nil _ _)
  · exact List.cons_ne_nil _ _
  · exact List.cons_ne_nil _ _

/-- A result is no failure, or one of the command's own. -/
theorem failureCode_result (status : ℤ) (stdout stderr : Str) (timedOut : Bool) :
    failureCode (responseEvents codec asked (.execResult status stdout stderr timedOut)) ≠ some (str "exec.timeout") := by
  have hlast : ∀ (output : List AgentEvent) (last : AgentEvent) (code : ℤ),
      failureCode (output ++ [last], code) = failureCode ([last], code) := fun output last code =>
    @failureCode_append output ([last], code) (List.cons_ne_nil _ _)
  simp only [responseEvents]
  split
  · rw [hlast]
    have hne : str "exec.nonzero" ≠ str "exec.timeout" := by decide
    exact fun h => hne (Option.some.inj h)
  · rw [hlast]
    exact fun h => nomatch h

/-- The daemon's response, however the reader has come to it. -/
theorem comesTo_response {response : ControlResponse} (hfits : Fits codec.response response)
    (hdecode : codec.decodeResponse (codec.response response) = .ok response) :
    ComesTo codec asked (responseFrame codec.response clientRequestId response).bytes
      (· = failureCode (responseEvents codec asked response)) := by
  intro fuel buf hfuel
  have hpos : 0 < (responseFrame codec.response clientRequestId response).bytes.length := by
    rw [Frame.bytes_length]
    exact Nat.add_pos_left (by decide) _
  obtain ⟨fuel, rfl⟩ := Nat.exists_eq_add_of_lt (lt_of_lt_of_le hpos hfuel)
  have hloop := @execStreamLoop_response codec asked response hfits hdecode (0 + fuel) [] buf
  rw [List.append_nil] at hloop
  rw [hloop]
  exact ⟨rfl, responseEvents_ne_nil response⟩

/-- Frames of output come first. -/
theorem comesTo_frame {f : Frame} {input : Bytes} {p : Option Str → Prop} (hvalid : f.Valid) (houtput : IsOutputFrame f)
    (h : ComesTo codec asked input p) : ComesTo codec asked (f.bytes ++ input) p := by
  intro fuel buf hfuel
  obtain ⟨channel, eof, hframe⟩ := houtput
  have hlen := f.bytes_length
  unfold headerLen at hlen
  rw [List.length_append] at hfuel
  obtain ⟨fuel, rfl⟩ : ∃ n, fuel = n + 1 := ⟨fuel - 1, by omega⟩
  have hloop := @execStreamLoop_frame codec asked channel eof f.payload (hframe ▸ hvalid) fuel input buf
  rw [← hframe] at hloop
  obtain ⟨hcode, hne⟩ := h fuel f.payload (by omega)
  rw [hloop]
  refine ⟨?_, List.append_ne_nil_of_right_ne_nil _ hne⟩
  rw [failureCode_append _ hne]
  exact hcode

theorem comesTo_frames {input : Bytes} {p : Option Str → Prop} (h : ComesTo codec asked input p) :
    ∀ {frames : List Frame}, (∀ f ∈ frames, f.Valid) → (∀ f ∈ frames, IsOutputFrame f) →
      ComesTo codec asked (framesBytes frames ++ input) p
  | [], _, _ => h
  | f :: frames, hvalid, houtput => by
    obtain ⟨hf, hframes⟩ := List.forall_mem_cons.mp hvalid
    obtain ⟨hfout, hout⟩ := List.forall_mem_cons.mp houtput
    rw [framesBytes_cons, List.append_assoc]
    exact comesTo_frame hf hfout (comesTo_frames h hframes hout)

/-! ### A frame that is cut -/

theorem frame_bytes_head {f : Frame} (h : f.Valid) :
    ∃ kind more, f.bytes = [82, 83, 68, 66, 2, 0, kind, 0] ++ more := by
  have hkind : ∀ kind : FrameKind, ∃ b, leBytes 2 kind.toU16.toNat = [b, 0] := by
    intro kind
    cases kind <;> exact ⟨_, rfl⟩
  obtain ⟨b, hb⟩ := hkind f.header.kind
  refine ⟨b, leBytes 4 f.header.flags.toNat ++ leBytes 4 f.header.requestId.toNat ++ leBytes 4 f.header.payloadLen.toNat ++
    leBytes 4 0 ++ f.payload, ?_⟩
  have hversion : leBytes 2 f.header.version.toNat = [2, 0] := by rw [h.version]; rfl
  show f.header.encode.1 ++ f.payload = _
  unfold FrameHeader.encode
  simp only [hb, hversion, List.append_assoc]
  rfl

/-- A frame that is cut anywhere, and a response behind the part: the exec ends
with an internal error. -/
theorem failureCode_cut (htexts : ∀ text response, codec.decodeResponse text = .ok response → JsonText text)
    {f : Frame} {k : ℕ} {length : UInt8} {text : Bytes} (hvalid : f.Valid)
    (hkind : f.header.kind = .stream ∨ ∃ length' text', f.bytes = responseBytes length' text') (hpos : 0 < k)
    (hlen : k < f.bytes.length) (hclean : 82 ∉ (responseBytes length text).tail) :
    ComesTo codec asked (f.bytes.take k ++ responseBytes length text) (· = some internalCode) := by
  intro fuel buf hfuel
  cases fuel with
  | zero => exact ⟨rfl, List.cons_ne_nil _ _⟩
  | succ fuel =>
    unfold execStreamLoop
    split
    · exact ⟨rfl, List.cons_ne_nil _ _⟩
    rename_i header rest payload hread
    have hk : 8 ≤ k := by
      by_contra hshort
      obtain ⟨kind, more, hbytes⟩ := frame_bytes_head hvalid
      rw [hbytes] at hread
      exact unframed_cut_short hpos (not_le.mp hshort) _ _ _ _ hread
    have hsame := cut_kind hk hlen.le hread
    obtain ⟨m, hrest⟩ := cut_rest hvalid hlen hread
    have hunframed : Unframed rest := by
      rw [hrest, ← List.drop_tail]
      exact unframed_of_notMem fun hmem => hclean (List.mem_of_mem_drop hmem)
    have hshorter := readFrameInto_length hread
    unfold headerLen at hshorter
    split
    · -- the frame that was begun was one of output
      split
      · exact ⟨rfl, List.cons_ne_nil _ _⟩
      · split
        · exact ⟨rfl, List.cons_ne_nil _ _⟩
        · obtain ⟨hcode, hne⟩ := @comesTo_unframed codec asked _ hunframed fuel payload (by omega)
          refine ⟨?_, List.append_ne_nil_of_right_ne_nil _ hne⟩
          rw [failureCode_append _ hne]
          exact hcode
    · -- it was the result
      rename_i hresponse
      have hnot : ¬ JsonText payload := by
        rcases hkind with hstream | ⟨length', text', hbytes⟩
        · rw [hsame, hstream] at hresponse
          cases hresponse
        · by_cases hheader : headerLen ≤ k
          · obtain ⟨n, hpayload, -⟩ := cut_payload hvalid hheader hlen hread
            rw [hpayload]
            exact not_jsonText_append
          · rw [hbytes] at hread
            exact not_jsonText_of_head (cut_response_payload hk (not_le.mp hheader) hread)
      split
      · exact ⟨rfl, List.cons_ne_nil _ _⟩
      · rename_i response hdecode
        unfold decodeJson at hdecode
        split at hdecode
        · cases hdecode
        · split at hdecode
          · rename_i hok
            exact absurd (htexts _ _ hok) hnot
          · cases hdecode
    · exact ⟨rfl, List.cons_ne_nil _ _⟩

/-- A failure that is no timeout, or no failure. -/
def NoTimeout (code : Option Str) : Prop := code ≠ some (str "exec.timeout")

theorem noTimeout_internal {code : Option Str} (h : code = some internalCode) : NoTimeout code := by
  rw [h]
  exact fun he => absurd (Option.some.inj he) (by decide)

/-- A whole result, whatever follows it. -/
theorem comesTo_result {answer : ControlResponse} (hreads : ReadsExec codec answer) (status : Option Int32)
    (rest : Bytes) :
    ComesTo codec asked ((responseFrame codec.response clientRequestId (resultResponse status)).bytes ++ rest)
      NoTimeout := by
  intro fuel buf hfuel
  have hfits : Fits codec.response (resultResponse status) := by
    unfold Fits
    rw [hreads.printed]
    exact (resultResponse_length status).le.trans (by decide)
  cases hdecode : codec.decodeResponse (codec.response (resultResponse status)) with
  | ok response =>
    rw [hreads.printed] at hdecode
    obtain rfl := hreads.results _ _ hdecode
    rw [← hreads.printed] at hdecode
    have hpos : 0 < (responseFrame codec.response clientRequestId (resultResponse status)).bytes.length := by
      rw [Frame.bytes_length]
      exact Nat.add_pos_left (by decide) _
    rw [List.length_append] at hfuel
    obtain ⟨fuel, rfl⟩ : ∃ n, fuel = n + 1 := ⟨fuel - 1, by omega⟩
    rw [execStreamLoop_response hfits hdecode fuel rest buf]
    exact ⟨failureCode_result _ _ _ _, responseEvents_ne_nil _⟩
  | error message =>
    have hvalid := (responseFrame_valid codec.response clientRequestId).mpr hfits
    have hread := readFrameInto_bytes hvalid rest buf
    have hkind : (responseFrame codec.response clientRequestId (resultResponse status)).header.kind = .response := rfl
    have hjson : decodeJson codec.decodeResponse
        ⟨(responseFrame codec.response clientRequestId (resultResponse status)).header,
          (responseFrame codec.response clientRequestId (resultResponse status)).payload⟩ .response =
        .error (.json message) := by
      have hpayload : (responseFrame codec.response clientRequestId (resultResponse status)).payload =
          codec.response (resultResponse status) := rfl
      unfold decodeJson
      rw [if_neg (not_not_intro hkind)]
      simp only [hpayload, hdecode]
    cases fuel with
    | zero => exact ⟨noTimeout_internal rfl, List.cons_ne_nil _ _⟩
    | succ fuel =>
      simp only [execStreamLoop, hread, hkind, hjson]
      exact ⟨noTimeout_internal rfl, List.cons_ne_nil _ _⟩

/-- What the socket had taken is a whole number of frames of output, or the client
sees no timeout. -/
theorem cut_or_boundary {answer : ControlResponse} (hreads : ReadsExec codec answer) {length : UInt8} {text : Bytes}
    (hclean : 82 ∉ (responseBytes length text).tail) {result : List Frame}
    (hresult : ResultFrames codec.response clientRequestId result) :
    ∀ {frames : List Frame}, (∀ f ∈ frames, f.Valid) → (∀ f ∈ frames, IsOutputFrame f) →
      ∀ {wire : Bytes}, wire <+: framesBytes (frames ++ result) →
        (∃ n, wire = framesBytes (frames.take n)) ∨ ComesTo codec asked (wire ++ responseBytes length text) NoTimeout
  | [], _, _, wire, hwire => by
    rcases hresult with rfl | ⟨status, rfl, hfits⟩
    · exact Or.inl ⟨0, List.prefix_nil.mp hwire⟩
    · rw [List.nil_append, framesBytes_cons, framesBytes_nil, List.append_nil] at hwire
      have hvalid := (responseFrame_valid codec.response clientRequestId).mpr hfits
      have htake : wire = (responseFrame codec.response clientRequestId (resultResponse status)).bytes.take wire.length :=
        (List.prefix_iff_eq_take.mp hwire)
      rcases Nat.eq_zero_or_pos wire.length with hzero | hpos
      · exact Or.inl ⟨0, List.eq_nil_of_length_eq_zero hzero⟩
      · right
        rcases Nat.lt_or_ge wire.length (responseFrame codec.response clientRequestId (resultResponse status)).bytes.length
          with hlt | hge
        · have hbytes : (responseFrame codec.response clientRequestId (resultResponse status)).bytes = responseBytes
              (UInt8.ofNat (codec.response (resultResponse status)).length) (codec.response (resultResponse status)) := by
            refine responseFrame_bytes ?_
            rw [hreads.printed]
            exact resultResponse_length status
          have hcut := @failureCode_cut codec asked hreads.texts _ wire.length length text hvalid
            (Or.inr ⟨_, _, hbytes⟩) hpos hlt hclean
          rw [← htake] at hcut
          exact hcut.mono fun _ => noTimeout_internal
        · rw [List.take_of_length_le hge] at htake
          rw [htake]
          exact comesTo_result hreads status _
  | f :: frames, hvalid, houtput, wire, hwire => by
    obtain ⟨hf, hframes⟩ := List.forall_mem_cons.mp hvalid
    obtain ⟨hfout, hout⟩ := List.forall_mem_cons.mp houtput
    rw [List.cons_append, framesBytes_cons] at hwire
    rcases Nat.lt_or_ge wire.length f.bytes.length with hlt | hge
    · have htake : wire = f.bytes.take wire.length := by
        have h := List.prefix_iff_eq_take.mp hwire
        rwa [List.take_append_of_le_length hlt.le] at h
      rcases Nat.eq_zero_or_pos wire.length with hzero | hpos
      · exact Or.inl ⟨0, List.eq_nil_of_length_eq_zero hzero⟩
      · have hkind : f.header.kind = .stream := by
          obtain ⟨channel, eof, hframe⟩ := hfout
          rw [hframe]
          rfl
        have hcut := @failureCode_cut codec asked hreads.texts _ wire.length length text hf (Or.inl hkind) hpos hlt hclean
        rw [← htake] at hcut
        exact Or.inr (hcut.mono fun _ => noTimeout_internal)
    · obtain ⟨more, rfl⟩ := List.prefix_of_prefix_length_le (List.prefix_append f.bytes _) hwire hge
      rcases cut_or_boundary hreads hclean hresult hframes hout ((List.prefix_append_right_inj _).mp hwire) with
        ⟨n, hn⟩ | hcomes
      · exact Or.inl ⟨n + 1, by rw [hn, List.take_succ_cons, framesBytes_cons]⟩
      · right
        rw [List.append_assoc]
        exact comesTo_frame hf hfout hcomes

end

/-! ### The daemon's errors -/

/-- A text behind another one that it does not begin in. -/
theorem infix_append_iff {p before text : Str} (h : ∀ i < before.length, ¬ p.take (before.length - i) <+: before.drop i) :
    p <:+: before ++ text ↔ p <:+: text := by
  constructor
  · rintro ⟨a, b, hab⟩
    rcases Nat.lt_or_ge a.length before.length with hlt | hge
    · exfalso
      have hdrop : p ++ b = before.drop a.length ++ text := by
        have hdropped := congrArg (List.drop a.length) hab
        rwa [List.append_assoc, List.drop_left, List.drop_append_of_le_length hlt.le] at hdropped
      refine h a.length hlt ?_
      have hprefix : p.take (before.length - a.length) <+: before.drop a.length ++ text :=
        (List.take_prefix _ _).trans ⟨b, hdrop⟩
      refine List.prefix_of_prefix_length_le hprefix (List.prefix_append _ _) ?_
      rw [List.length_take, List.length_drop]
      exact Nat.min_le_left _ _
    · obtain ⟨more, rfl⟩ : before <+: a := by
        refine List.prefix_of_prefix_length_le (List.prefix_append before text) ?_ hge
        exact ⟨p ++ b, by rw [← List.append_assoc]; exact hab⟩
      refine ⟨more, b, ?_⟩
      rw [List.append_assoc, List.append_assoc] at hab
      rw [List.append_assoc]
      exact List.append_cancel_left hab
  · exact fun hinside => hinside.trans (List.suffix_append before text).isInfix

/-- What an error of the daemon is searched for. -/
def timedOutText : Str := str "timed out"

theorem timedOut_startFailed (command : Str) :
    timedOutText <:+: str "failed to execute command: " ++ command ↔ timedOutText <:+: command :=
  infix_append_iff (by decide)

theorem not_timedOut_of_notMem {text : Str} (h : 105 ∉ text) : ¬ timedOutText <:+: text :=
  fun hinside => h (hinside.subset (by decide))

/-- What a streamed exec can fail with, and the events it has seen then. -/
inductive ExecError (command : Str) (spawned : Except IoError Unit) : List RelayEvent → AnyhowError → Prop where
  | blank (h : isBlank command = true) : ExecError command spawned [] (.bail (str "command must not be empty"))
  | start (h : isBlank command = false) (err : IoError) (hspawned : spawned = .error err) :
      ExecError command spawned [] ((AnyhowError.ofIo err).context (str "failed to execute command: " ++ command))
  | event {es : List RelayEvent} (hspawned : spawned = .ok ()) (event : RelayEvent) (hruns : Runs false .start es)
      (hlast : es.getLast? = some event) (err : AnyhowError) (herr : eventFailure execFailures event = some err) :
      ExecError command spawned es err
  | large {es : List RelayEvent} (hspawned : spawned = .ok ()) (hstays : ∀ event ∈ es, ¬ event.Leaves) (n : ℕ) :
      ExecError command spawned es (.ofProtocol (.payloadTooLarge n))

/-- No task reports to the loop of an exec. -/
theorem stdin_notMem {message : Option AnyhowError} : ∀ {es : List RelayEvent} {relay : Relay},
    Runs false relay es → RelayEvent.stdin message ∉ es
  | [], _, _ => List.not_mem_nil
  | event :: es, relay, ⟨_, henabled, _, hruns⟩ => by
    rw [List.mem_cons, not_or]
    refine ⟨?_, stdin_notMem hruns⟩
    rintro rfl
    cases henabled

theorem execSession_errors (json : ControlResponse → Bytes) (requestId : UInt32) (command : Str)
    (spawned : Except IoError Unit) (fuel : ℕ) :
    Always (fun trace stop => ∀ err, stop = .failed err → ExecError command spawned (events trace) err)
      (execSession json requestId command spawned fuel) := by
  unfold execSession
  split
  · rename_i hblank
    refine always_fail fun err herr => ?_
    obtain rfl := Stop.failed.inj herr
    exact .blank hblank
  rename_i hblank
  cases spawned with
  | error e =>
    refine always_fail fun err herr => ?_
    obtain rfl := Stop.failed.inj herr
    exact .start (Bool.not_eq_true _ ▸ hblank) e rfl
  | ok u =>
    refine always_bind (relayLoop_relays requestId fuel .start) (fun _ _ _ h => by cases h) ?_ ?_
    · rintro trace err ⟨hruns, -, event, hlast, hfailure⟩ err' herr
      obtain rfl := Stop.failed.inj herr
      exact .event rfl event hruns hlast err hfailure
    · rintro first ⟨result, buf⟩ ⟨hruns, htaken, rfl, hresult⟩
      cases result with
      | error err => exact absurd (List.mem_of_getLast? hresult) (stdin_notMem hruns)
      | ok status =>
        by_cases hfits : Fits json (resultResponse status)
        · refine (sendResponse_of_fits json requestId hfits).mono fun rest stop hsends err hstop => ?_
          rw [hstop] at hsends
          exact hsends.elim
        · show Always _ (sendResponse json requestId (resultResponse status) [])
          rw [sendResponse_of_not_fits json requestId hfits]
          refine always_fail fun err herr => ?_
          obtain rfl := Stop.failed.inj herr
          rw [List.append_nil]
          exact .large rfl hresult.2 _

section

variable {command : Str} {spawned : Except IoError Unit} {es : List RelayEvent} {err : AnyhowError}

/-- What the operating system says of a pipe is the error. -/
theorem execError_of_read (h : ExecError command spawned es err) {e : IoError}
    (hmem : .stdout (.error e) ∈ es ∨ .stderr (.error e) ∈ es) : err = .ofIo e := by
  cases h with
  | blank h => simp at hmem
  | start h e' hspawned => simp at hmem
  | event hspawned event hruns hlast err herr =>
    rcases hmem with hmem | hmem
    · have heq := @getLast?_of_leaves _ (.stdout (.error e)) trivial _ _ hruns hmem
      rw [hlast] at heq
      obtain rfl := Option.some.inj heq
      exact (Option.some.inj herr).symm
    · have heq := @getLast?_of_leaves _ (.stderr (.error e)) trivial _ _ hruns hmem
      rw [hlast] at heq
      obtain rfl := Option.some.inj heq
      exact (Option.some.inj herr).symm
  | large hspawned hstays n =>
    rcases hmem with hmem | hmem
    · exact absurd trivial (hstays _ hmem)
    · exact absurd trivial (hstays _ hmem)

theorem execError_of_start (h : ExecError command spawned es err) (hcommand : isBlank command = false) {e : IoError}
    (hspawned : spawned = .error e) :
    err = (AnyhowError.ofIo e).context (str "failed to execute command: " ++ command) := by
  cases h with
  | blank h =>
    rw [hcommand] at h
    cases h
  | start h e' hspawned' =>
    obtain rfl := Except.error.inj (hspawned.symm.trans hspawned')
    rfl
  | event hok => rw [hspawned] at hok; cases hok
  | large hok => rw [hspawned] at hok; cases hok

/-- The text of an error holds `timed out` only where the command does that cannot
be started, or what the operating system says of a pipe. -/
theorem timedOut_execError (h : ExecError command spawned es err) (htext : timedOutText <:+: err.message) :
    (∃ e, isBlank command = false ∧ spawned = .error e ∧ timedOutText <:+: command) ∨
      ∃ e, (.stdout (.error e) ∈ es ∨ .stderr (.error e) ∈ es) ∧ timedOutText <:+: e.message := by
  cases h with
  | blank h => exact absurd htext (by decide)
  | start hblank e hspawned => exact Or.inl ⟨e, hblank, hspawned, (timedOut_startFailed command).mp htext⟩
  | event hspawned event hruns hlast _ herr =>
    have hmem := List.mem_of_getLast? hlast
    unfold eventFailure at herr
    split at herr
    · obtain rfl := Option.some.inj herr
      exact Or.inr ⟨_, Or.inl hmem, htext⟩
    · obtain rfl := Option.some.inj herr
      exact Or.inr ⟨_, Or.inr hmem, htext⟩
    · obtain rfl := Option.some.inj herr
      have hwait : ¬ timedOutText <:+: str "failed to wait for exec process" := by decide
      exact absurd htext hwait
    · cases herr
  | large hspawned hstays n =>
    refine absurd htext (not_timedOut_of_notMem ?_)
    show 105 ∉ str "payload too large: " ++ decimal n ++ str " bytes"
    rw [List.mem_append, List.mem_append, not_or, not_or]
    refine ⟨⟨by decide, fun hdigit => ?_⟩, by decide⟩
    exact absurd (digit_of_mem_decimal hdigit).2 (by decide)

end

/-! ### The unstreamed request -/

/-- `map_transport_error` of a response that cannot be read, with its context. -/
def mapTransportError (target context : Str) (err : ProtocolError) : AgentCommandFailure :=
  let (code, retryable) :=
    match err with
    | .unsupportedVersion _ => (str "connection.protocol_mismatch", false)
    | .io .permissionDenied => (str "fs.permission_denied", false)
    | _ => (str "internal.error", false)
  ⟨code, context, some target, retryable, [], 1⟩

/-- `run_agent_exec` on the bytes the daemon sends before it closes the connection. -/
def requestAgentExec (codec : Codec) (asked : ExecArgs) (input : Bytes) : Except AgentCommandFailure AgentExecData :=
  match readFrame input with
  | (.error err, _) => .error (mapTransportError asked.target (str "failed to read response") err)
  | (.ok frame, _) =>
    match decodeJson codec.decodeResponse frame .response with
    | .error err => .error (mapTransportError asked.target (str "failed to decode response") err)
    | .ok response => runAgentExec codec asked response

/-- The code of the failure that is reported. -/
def reportedCode (report : Except AgentCommandFailure AgentExecData) : Option Str :=
  match report with
  | .error failure => some failure.code
  | .ok _ => none

/-! ### From the request to the code -/

section

variable {json : ControlResponse → Bytes} {requestId : UInt32} {state : ServerState} {env : FsEnv} {command : Str}
  {args : List Str} {cwd : Option Str} {timeoutSecs : Option ℕ} {stream : Bool}

/-- The daemon's timer has elapsed. -/
def TimerElapsed : RequestRun json requestId state env (.exec command args cwd timeoutSecs stream) → Prop
  | .exec command _ _ _ output => isBlank command = false ∧ output = .timedOut
  | .execStream _ _ _ _ _ _ _ stop _ => stop = .waiting
  | .fs _ _ known _ _ _ => nomatch known

/-- The response the daemon comes to. -/
def execAnswer : RequestRun json requestId state env (.exec command args cwd timeoutSecs stream) → ControlResponse
  | .exec command _ _ timeoutSecs output => execResponse (executeCommand state command timeoutSecs output)
  | .execStream _ _ _ timeoutSecs _ _ trace stop _ =>
    match stop with
    | .returned () => resultResponse ((events trace).foldl Relay.after .start).exitStatus.join
    | .failed err => execFailedResponse err
    | .waiting => timeoutResponse (execTimeout timeoutSecs state.execTimeoutSecs)
  | .fs _ _ known _ _ _ => nomatch known

/-- The command cannot be started, and its error can be sent. -/
def StartFails (json : ControlResponse → Bytes) (command : Str) (err : IoError) : Prop :=
  isBlank command = false ∧
    Fits json (execFailedResponse ((AnyhowError.ofIo err).context (str "failed to execute command: " ++ command)))

/-- What the code needs: a command that cannot be started does not hold `timed
out`; nor does what the operating system says of a pipe that cannot be read; and a
streamed exec whose timer elapses is between two frames. -/
def ExecClear : RequestRun json requestId state env (.exec command args cwd timeoutSecs stream) → Prop
  | .exec command _ _ _ output => ∀ err, output = .failed err → StartFails json command err → ¬ timedOutText <:+: command
  | .execStream command _ _ _ spawned _ trace stop _ =>
    match stop with
    | .returned () => True
    | .waiting => AtBoundary requestId trace
    | .failed _ =>
      (∀ err, spawned = .error err → StartFails json command err → ¬ timedOutText <:+: command) ∧
        ∀ err, (.stdout (.error err) ∈ events trace ∨ .stderr (.error err) ∈ events trace) →
          Fits json (execFailedResponse (.ofIo err)) → ¬ timedOutText <:+: err.message
  | .fs _ _ known _ _ _ => nomatch known

/-- The code the agent reports. -/
def agentExecCode (codec : Codec) (asked : ExecArgs) (run : RequestRun codec.response clientRequestId state env
    (.exec command args cwd timeoutSecs stream)) : Option Str :=
  if stream then failureCode (runAgentExecStream codec asked run.handled.2)
  else reportedCode (requestAgentExec codec asked run.handled.2)

variable {codec : Codec} {asked : ExecArgs}

/-- An `ExecFailed` counts as a timeout by its text. -/
theorem execFailed_iff (message : Str) :
    some (mappedCode (str "exec") message .execFailed).1 = some (str "exec.timeout") ↔ timedOutText <:+: message := by
  have hne : str "exec.start_failed" ≠ str "exec.timeout" := by decide
  unfold mappedCode
  simp only
  split
  · rename_i h
    exact iff_of_true rfl h
  · rename_i h
    exact iff_of_false (fun he => hne (Option.some.inj he)) h

theorem timeoutResponse_fits_of_lt {secs : ℕ} (h : secs < 2 ^ 64) : Fits ControlResponse.json (timeoutResponse secs) :=
  (timeoutResponse_length h).2.trans (by decide)

theorem internal_ne_timeout : some internalCode ≠ some (str "exec.timeout") := by decide

theorem reportedCode_result (status : ℤ) (stdout stderr : Str) (timedOut : Bool) :
    reportedCode (runAgentExec codec asked (.execResult status stdout stderr timedOut)) ≠ some (str "exec.timeout") := by
  have hne : str "exec.nonzero" ≠ str "exec.timeout" := by decide
  unfold runAgentExec reportedCode
  simp only
  split
  · rename_i failure hfailure
    split at hfailure
    · obtain rfl := Except.error.inj hfailure
      exact fun h => hne (Option.some.inj h)
    · cases hfailure
  · exact fun h => nomatch h

/-- The response of an unstreamed exec is reported as a timeout when it is sent and
has that code. -/
theorem reportedCode_written_iff {response : ControlResponse}
    (hdecode : codec.decodeResponse (codec.response response) = .ok response) :
    reportedCode (requestAgentExec codec asked (writeJsonFrame [] .response clientRequestId (codec.response response)).2) =
        some (str "exec.timeout") ↔
      Fits codec.response response ∧ reportedCode (runAgentExec codec asked response) = some (str "exec.timeout") := by
  by_cases hfits : Fits codec.response response
  · have hread : readFrame (responseFrame codec.response clientRequestId response).bytes =
        (.ok (responseFrame codec.response clientRequestId response), []) := by
      have h := readFrame_messageFrame hfits .response clientRequestId []
      rwa [List.append_nil] at h
    have hjson : decodeJson codec.decodeResponse (responseFrame codec.response clientRequestId response) .response =
        .ok response := decodeJson_messageFrame hdecode .response clientRequestId
    rw [writeJsonFrame_of_fits codec.response clientRequestId hfits, and_iff_right hfits, List.nil_append,
      requestAgentExec, hread]
    simp only [hjson]
  · rw [writeJsonFrame_of_not_fits codec.response clientRequestId hfits]
    exact iff_of_false internal_ne_timeout fun h => hfits h.1

/-- An unstreamed exec. -/
theorem unstreamed_iff (hprinted : codec.response = ControlResponse.json)
    (hsecs : execTimeout timeoutSecs state.execTimeoutSecs < 2 ^ 64) (output : CommandOutput)
    (hdecode : codec.decodeResponse (codec.response (execResponse (executeCommand state command timeoutSecs output))) =
      .ok (execResponse (executeCommand state command timeoutSecs output))) :
    ((reportedCode (requestAgentExec codec asked (writeJsonFrame [] .response clientRequestId
        (codec.response (execResponse (executeCommand state command timeoutSecs output)))).2) = some (str "exec.timeout")) ↔
      (isBlank command = false ∧ output = .timedOut)) ↔
      ∀ err, output = .failed err → StartFails codec.response command err → ¬ timedOutText <:+: command := by
  rw [reportedCode_written_iff hdecode]
  unfold executeCommand
  by_cases hblank : isBlank command = true
  · -- an empty command is refused before the timer starts
    rw [if_pos hblank]
    refine iff_of_true (iff_of_false ?_ fun h => ?_) fun err _ hstart => ?_
    · rintro ⟨-, hcode⟩
      have hempty : ¬ timedOutText <:+: str "command must not be empty" := by decide
      exact hempty ((execFailed_iff _).mp hcode)
    · exact absurd h.1 (by rw [hblank]; exact fun h => nomatch h)
    · exact absurd hstart.1 (by rw [hblank]; exact fun h => nomatch h)
  · have hcommand : isBlank command = false := Bool.not_eq_true _ ▸ hblank
    rw [if_neg hblank]
    cases output with
    | failed err =>
      have hcode := execFailed_iff (str "failed to execute command: " ++ command)
      rw [timedOut_startFailed] at hcode
      constructor
      · rintro hiff err' herr ⟨-, hfits⟩ htext
        obtain rfl := CommandOutput.failed.inj herr
        cases (hiff.mp ⟨hfits, hcode.mpr htext⟩).2
      · intro hclear
        refine iff_of_false ?_ fun h => nomatch h.2
        rintro ⟨hfits, htimeout⟩
        exact hclear err rfl ⟨hcommand, hfits⟩ (hcode.mp htimeout)
    | timedOut =>
      have hfits : Fits codec.response (timeoutResponse (execTimeout timeoutSecs state.execTimeoutSecs)) := by
        rw [hprinted]
        exact timeoutResponse_fits_of_lt hsecs
      exact iff_of_true (iff_of_true ⟨hfits, rfl⟩ ⟨hcommand, rfl⟩) fun err herr => nomatch herr
    | finished status stdout stderr =>
      refine iff_of_true (iff_of_false ?_ fun h => nomatch h.2) fun err herr => nomatch herr
      rintro ⟨-, hcode⟩
      exact reportedCode_result _ _ _ _ hcode

theorem isOutputFrame_eventsFrames (trace : Session.Trace RelayCall.Answer) :
    ∀ f ∈ eventsFrames clientRequestId trace, IsOutputFrame f := by
  intro f hf
  obtain ⟨event, -, hf⟩ := List.mem_flatMap.mp hf
  unfold eventFrames at hf
  split at hf
  · obtain rfl := List.mem_singleton.mp hf
    exact ⟨.stdout, _, rfl⟩
  · obtain rfl := List.mem_singleton.mp hf
    exact ⟨.stderr, _, rfl⟩
  · cases hf

theorem failureCode_of_comesTo {input : Bytes} {p : Option Str → Prop} (h : ComesTo codec asked input p) :
    p (failureCode (runAgentExecStream codec asked input)) := (h input.length [] (Nat.le_refl _)).1

section

variable {spawned : Except IoError Unit} {fuel : ℕ} {trace : Session.Trace RelayCall.Answer} {stop : Stop AnyhowError Unit}
  (hexec : Exec (execSession codec.response clientRequestId command spawned fuel) trace stop)

include hexec

/-- A streamed exec that comes to its result. -/
theorem streamed_returned {answer : ControlResponse} (hreads : ReadsExec codec answer) (hstop : stop = .returned ()) :
    NoTimeout (failureCode (runAgentExecStream codec asked
      (execStreamed codec.response clientRequestId state timeoutSecs trace stop).2)) := by
  obtain ⟨hruns, hrelays⟩ := execSession_relays codec.response clientRequestId command spawned fuel _ _ hexec
  subst hstop
  obtain ⟨status, hfits, -, htaken⟩ := hrelays
  show NoTimeout (failureCode (runAgentExecStream codec asked (taken trace)))
  rw [htaken, framesBytes_append]
  refine failureCode_of_comesTo (comesTo_frames ?_ (hruns.valid clientRequestId) (isOutputFrame_eventsFrames trace))
  rw [framesBytes_cons]
  exact comesTo_result hreads status []

/-- A streamed exec that fails is reported by the text of its error, if that is sent. -/
theorem streamed_failed {err : AnyhowError} (hstop : stop = .failed err)
    (hdecode : codec.decodeResponse (codec.response (execFailedResponse err)) = .ok (execFailedResponse err)) :
    failureCode (runAgentExecStream codec asked
        (execStreamed codec.response clientRequestId state timeoutSecs trace stop).2) = some (str "exec.timeout") ↔
      Fits codec.response (execFailedResponse err) ∧ timedOutText <:+: err.message := by
  obtain ⟨hruns, htaken⟩ := execSession_failed command spawned fuel trace _ hexec err hstop
  subst hstop
  have hvalid : ∀ f ∈ eventsFrames clientRequestId trace, f.Valid := hruns.valid clientRequestId
  have houtput := isOutputFrame_eventsFrames trace
  show failureCode (runAgentExecStream codec asked (writeJsonFrame (taken trace) .response clientRequestId
    (codec.response (execFailedResponse err))).2) = _ ↔ _
  rw [htaken]
  by_cases hfits : Fits codec.response (execFailedResponse err)
  · rw [writeJsonFrame_of_fits codec.response clientRequestId hfits, and_iff_right hfits]
    have hcode := failureCode_of_comesTo
      (comesTo_frames (@comesTo_response codec asked _ hfits hdecode) hvalid houtput)
    show failureCode (runAgentExecStream codec asked (framesBytes (eventsFrames clientRequestId trace) ++ _)) = _ ↔ _
    rw [hcode]
    exact execFailed_iff err.message
  · rw [writeJsonFrame_of_not_fits codec.response clientRequestId hfits]
    have hnil : Unframed [] := unframed_of_notMem List.not_mem_nil
    have hcode := failureCode_of_comesTo (comesTo_frames (@comesTo_unframed codec asked _ hnil) hvalid houtput)
    rw [List.append_nil] at hcode
    show failureCode (runAgentExecStream codec asked (framesBytes (eventsFrames clientRequestId trace))) = _ ↔ _
    rw [hcode]
    exact iff_of_false internal_ne_timeout fun h => hfits h.1

/-- A streamed exec whose timer elapses is reported as a timeout between two frames. -/
theorem streamed_waiting {answer : ControlResponse} (hreads : ReadsExec codec answer)
    (hsecs : execTimeout timeoutSecs state.execTimeoutSecs < 2 ^ 64) (hstop : stop = .waiting)
    (hanswer : answer = timeoutResponse (execTimeout timeoutSecs state.execTimeoutSecs)) :
    failureCode (runAgentExecStream codec asked
        (execStreamed codec.response clientRequestId state timeoutSecs trace stop).2) = some (str "exec.timeout") ↔
      AtBoundary clientRequestId trace := by
  obtain ⟨hruns, hrelays⟩ := execSession_relays codec.response clientRequestId command spawned fuel _ _ hexec
  subst hstop
  obtain ⟨result, hresult, hbegins⟩ := hrelays
  have hvalid : ∀ f ∈ eventsFrames clientRequestId trace, f.Valid := hruns.valid clientRequestId
  have houtput := isOutputFrame_eventsFrames trace
  have hfits : Fits codec.response answer := by
    rw [hreads.printed, hanswer]
    exact timeoutResponse_fits_of_lt hsecs
  have hdecode := hreads.decodes
  have hwire : (execStreamed codec.response clientRequestId state timeoutSecs trace .waiting).2 =
      taken trace ++ (responseFrame codec.response clientRequestId answer).bytes := by
    unfold execStreamed
    rw [streamCommandOutput, ← hanswer, writeJsonFrame_of_fits codec.response clientRequestId hfits]
  rw [hwire]
  constructor
  · intro htimeout
    have hlength := timeoutResponse_length hsecs
    have hbytes : (responseFrame codec.response clientRequestId answer).bytes =
        responseBytes (UInt8.ofNat (codec.response answer).length) (codec.response answer) := by
      refine responseFrame_bytes ?_
      rw [hreads.printed, hanswer]
      omega
    have hclean : 82 ∉ (responseBytes (UInt8.ofNat (codec.response answer).length) (codec.response answer)).tail := by
      have hlow : UInt8.ofNat (codec.response answer).length ≠ 82 := by
        rw [hreads.printed, hanswer, ne_eq, ← UInt8.toNat_inj, UInt8.toNat_ofNat_of_lt' (by unfold UInt8.size; omega)]
        show _ ≠ 82
        omega
      have htext : 82 ∉ codec.response answer := by
        rw [hreads.printed, hanswer]
        exact notMem_timeoutResponse _
      have hhead : ∀ length : UInt8, length ≠ 82 →
          82 ∉ [83, 68, 66, 2, 0, 2, 0, 0, 0, 0, 0, 1, 0, 0, 0, length, 0, 0, 0, 0, 0, 0, 0] := by
        intro length hne
        simp [hne.symm]
      show 82 ∉ [83, 68, 66, 2, 0, 2, 0, 0, 0, 0, 0, 1, 0, 0, 0, _, 0, 0, 0, 0, 0, 0, 0] ++ codec.response answer
      rw [List.mem_append, not_or]
      exact ⟨hhead _ hlow, htext⟩
    rcases @cut_or_boundary codec asked answer hreads _ _ hclean _ hresult _ hvalid houtput _ hbegins with
      ⟨n, hn⟩ | hcomes
    · exact ⟨n, congrArg List.length hn⟩
    · rw [hbytes] at htimeout
      exact absurd htimeout (failureCode_of_comesTo hcomes)
  · rintro ⟨n, hn⟩
    have htaken : taken trace = framesBytes ((eventsFrames clientRequestId trace).take n) := by
      have hsplit : framesBytes ((eventsFrames clientRequestId trace).take n) <+:
          framesBytes (eventsFrames clientRequestId trace ++ result) := by
        refine ⟨framesBytes ((eventsFrames clientRequestId trace).drop n ++ result), ?_⟩
        rw [← framesBytes_append, ← List.append_assoc, List.take_append_drop]
      exact (List.prefix_of_prefix_length_le hbegins hsplit hn.le).eq_of_length hn
    have hsub : (eventsFrames clientRequestId trace).take n ⊆ eventsFrames clientRequestId trace := List.take_subset _ _
    have hcode := failureCode_of_comesTo (comesTo_frames (@comesTo_response codec asked _ hfits hdecode)
      (fun f hf => hvalid f (hsub hf)) fun f hf => houtput f (hsub hf))
    rw [htaken, hcode, hanswer]
    rfl

end

/-- **When `exec.timeout` means a timeout.** For every exec, streamed or not, and
every outcome on the daemon: the code is `exec.timeout` exactly when the daemon's
timer has elapsed, if and only if the exec is clear. The JSON parser is taken to
read the daemon's answer, and to read objects and arrays only. -/
theorem exec_timeout_iff (codec : Codec) (asked : ExecArgs) (run : RequestRun codec.response clientRequestId state env
      (.exec command args cwd timeoutSecs stream)) (hreads : ReadsExec codec (execAnswer run))
    (hsecs : execTimeout timeoutSecs state.execTimeoutSecs < 2 ^ 64) :
    (agentExecCode codec asked run = some (str "exec.timeout") ↔ TimerElapsed run) ↔ ExecClear run := by
  have hanswers := hreads.decodes
  cases run with
  | exec command _ _ _ output => exact unstreamed_iff hreads.printed hsecs output hanswers
  | execStream command _ _ _ spawned fuel trace stop hexec =>
    match stop with
    | .returned () =>
      refine iff_of_true (iff_of_false ?_ fun h => nomatch h) trivial
      exact streamed_returned hexec hreads rfl
    | .waiting =>
      have hwaiting := @streamed_waiting state command timeoutSecs codec asked _ _ _ _ hexec _ hreads hsecs rfl rfl
      show (failureCode (runAgentExecStream codec asked (execStreamed _ _ _ _ _ _).2) = _ ↔ _) ↔ _
      rw [hwaiting]
      exact iff_true_right rfl
    | .failed err =>
      have hfailed := @streamed_failed state command timeoutSecs codec asked _ _ _ _ hexec err rfl hanswers
      have herror := execSession_errors codec.response clientRequestId command spawned fuel _ _ hexec err rfl
      show (failureCode (runAgentExecStream codec asked (execStreamed _ _ _ _ _ _).2) = _ ↔ _) ↔ _
      rw [hfailed]
      constructor
      · intro hiff
        have hnot : Fits codec.response (execFailedResponse err) → ¬ timedOutText <:+: err.message :=
          fun hfits htext => nomatch hiff.mp ⟨hfits, htext⟩
        refine ⟨?_, ?_⟩
        · rintro e hspawned ⟨hcommand, hfits⟩ htext
          obtain rfl := execError_of_start herror hcommand hspawned
          exact hnot hfits ((timedOut_startFailed command).mpr htext)
        · intro e hmem hfits htext
          obtain rfl := execError_of_read herror hmem
          exact hnot hfits htext
      · rintro ⟨hstart, hread⟩
        refine iff_of_false ?_ fun h => nomatch h
        rintro ⟨hfits, htext⟩
        rcases timedOut_execError herror htext with ⟨e, hcommand, hspawned, hcontains⟩ | ⟨e, hmem, hcontains⟩
        · obtain rfl := execError_of_start herror hcommand hspawned
          exact hstart e hspawned ⟨hcommand, hfits⟩ hcontains
        · obtain rfl := execError_of_read herror hmem
          exact hread e hmem hfits hcontains
  | fs _ _ known => cases known

end

/-! ### A command that cannot be started -/

/-- Its path holds `timed out`. -/
def misnamed : Str := str "/opt/timed out/tool"

/-- What the daemon answers where there is no such command. -/
def misnamedAnswer : ControlResponse :=
  execFailedResponse ((AnyhowError.ofIo IoErrorKind.notFound.toError).context
    (str "failed to execute command: " ++ misnamed))

/-- The documented texts, and a parser that knows the answer. -/
def misnamedCodec : Codec := .documented [] [misnamedAnswer]

/-- That command is asked for. -/
def asksMisnamed : ExecArgs := { asksHost with program := misnamed }

/-- The run of the daemon that serves it. -/
def misnamedRun :
    RequestRun misnamedCodec.response clientRequestId testState testFsEnv (.exec misnamed [] none none false) :=
  .exec misnamed [] none none (.failed IoErrorKind.notFound.toError)

theorem misnamedCodec_decodes {text : Bytes} {response : ControlResponse}
    (h : misnamedCodec.decodeResponse text = .ok response) : response = misnamedAnswer ∧ text = misnamedAnswer.json := by
  obtain ⟨hmem, htext⟩ := Codec.documented_decodeResponse h
  obtain rfl := List.mem_singleton.mp hmem
  exact ⟨rfl, htext.symm⟩

theorem misnamedCodec_reads : ReadsExec misnamedCodec (execAnswer misnamedRun) where
  printed := rfl
  answers := by decide +kernel
  results status response h := by
    obtain ⟨-, htext⟩ := misnamedCodec_decodes h
    rw [resultResponse_json] at htext
    have hbyte := congrArg (List.take 11) htext
    rw [List.take_append_of_le_length (by decide)] at hbyte
    exact absurd hbyte (by decide +kernel)
  texts text response h := by
    obtain ⟨-, rfl⟩ := misnamedCodec_decodes h
    have hzero : 0 ∉ misnamedAnswer.json := zero_notMem_error _ _
    exact ⟨hzero, ⟨123, by decide, by decide +kernel⟩, ⟨125, by decide, by decide +kernel⟩⟩

/-- No timer has elapsed, and the code is `exec.timeout`. -/
theorem exec_timeout_misnamed :
    agentExecCode misnamedCodec asksMisnamed misnamedRun = some (str "exec.timeout") ∧ ¬ TimerElapsed misnamedRun :=
  ⟨by decide +kernel, fun h => nomatch h.2⟩

theorem exec_timeout_iff_misnamed :
    (agentExecCode misnamedCodec asksMisnamed misnamedRun = some (str "exec.timeout") ↔ TimerElapsed misnamedRun) ↔
      ExecClear misnamedRun :=
  exec_timeout_iff misnamedCodec asksMisnamed misnamedRun misnamedCodec_reads (by decide)

end Client

end Rsdb
