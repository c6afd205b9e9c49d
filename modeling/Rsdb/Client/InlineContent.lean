/-
# A file's content in one frame

`fs.read` and `fs.write` carry a file's content in a JSON string, in a message that
has to fit a frame (16 MiB); the content may have 4 MiB. In a JSON string a byte is
one, two (a quote, a backslash, the control characters with a short escape) or six
bytes (the other control characters). So text that is mostly control characters does
not fit, and base64 always does (`inline_content_fits_iff`).
-/
import Rsdb.Client.ExecStream
import Rsdb.Daemon.FsRead

namespace Rsdb

open Prog (run run_bind)

/-! ### The length of the JSON text -/

/-- Escaped by a backslash and a letter. -/
def shortEscaped (b : UInt8) : Bool := b ∈ [34, 92, 8, 9, 10, 12, 13]

/-- Escaped by its number. -/
def longEscaped (b : UInt8) : Bool := b < 32 && !shortEscaped b

/-- The bytes in a JSON string, without the quotes. -/
def escapedLength (s : Str) : ℕ := s.length + s.countP shortEscaped + 5 * s.countP longEscaped

theorem jsonEscape_length (b : UInt8) :
    (jsonEscape b).length = 1 + (if shortEscaped b then 1 else 0) + 5 * (if longEscaped b then 1 else 0) := by
  have hall : ∀ n : Fin 256, (jsonEscape (UInt8.ofNat n.1)).length = 1 +
      (if shortEscaped (UInt8.ofNat n.1) then 1 else 0) + 5 * (if longEscaped (UInt8.ofNat n.1) then 1 else 0) := by
    decide +kernel
  have hb := hall ⟨b.toNat, b.toNat_lt⟩
  rwa [UInt8.ofNat_toNat] at hb

theorem jsonString_length (s : Str) : (jsonString s).length = escapedLength s + 2 := by
  have hflat : (s.flatMap jsonEscape).length = escapedLength s := by
    induction s with
    | nil => rfl
    | cons b s ih =>
      rw [List.flatMap_cons, List.length_append, ih, jsonEscape_length]
      simp only [escapedLength, List.length_cons, List.countP_cons]
      omega
  simp only [jsonString, List.length_append, List.length_singleton, hflat]
  omega

theorem escapedLength_of_plain {s : Str} (h : ∀ b ∈ s, shortEscaped b = false ∧ longEscaped b = false) :
    escapedLength s = s.length := by
  have hshort : s.countP shortEscaped = 0 := List.countP_eq_zero.mpr fun b hb => by simp [(h b hb).1]
  have hlong : s.countP longEscaped = 0 := List.countP_eq_zero.mpr fun b hb => by simp [(h b hb).2]
  simp [escapedLength, hshort, hlong]

theorem escapedLength_le (s : Str) : escapedLength s ≤ 6 * s.length := by
  have hboth : s.countP shortEscaped + s.countP longEscaped ≤ s.length := by
    induction s with
    | nil => rfl
    | cons b s ih =>
      have hone : (if shortEscaped b then 1 else 0) + (if longEscaped b then 1 else 0) ≤ 1 := by
        unfold longEscaped
        cases shortEscaped b <;> cases decide (b < 32) <;> decide
      simp only [List.countP_cons, List.length_cons]
      omega
  unfold escapedLength
  omega

/-- What is around the content in the response. -/
def readAround (result : AgentFsReadResult) : ℕ :=
  escapedLength result.path + result.encoding.json.length + (decimal result.bytes).length +
    (jsonBool result.truncated).length + 93

theorem fsReadResult_length (result : AgentFsReadResult) :
    (ControlResponse.fsReadResult result).json.length = escapedLength result.content + readAround result := by
  have hnames : escapedLength (str "type") = 4 ∧ escapedLength (str "fs_read_result") = 14 ∧
      escapedLength (str "result") = 6 ∧ escapedLength (str "path") = 4 ∧ escapedLength (str "encoding") = 8 ∧
      escapedLength (str "content") = 7 ∧ escapedLength (str "bytes") = 5 ∧ escapedLength (str "truncated") = 9 := by
    decide
  simp only [ControlResponse.json, AgentFsReadResult.json, jsonTagged, jsonObject, jsonCommas, List.map_cons,
    List.map_nil, List.length_append, List.length_cons, List.length_nil, jsonString_length, readAround]
  omega

/-- What is around the content in the request. -/
def writeAround (request : Daemon.FsWrite) : ℕ :=
  escapedLength request.path + request.encoding.json.length + (jsonOption decimal request.mode).length +
    (jsonBool request.createParent).length + (jsonBool request.atomic).length + (jsonBool request.ifMissing).length +
    (jsonOption jsonString request.ifSha256).length + 116

/-- The request as a message. -/
def Daemon.FsWrite.request (write : Daemon.FsWrite) : ControlRequest :=
  .fsWrite write.path write.content write.encoding write.mode write.createParent write.atomic write.ifMissing
    write.ifSha256

theorem fsWrite_length (write : Daemon.FsWrite) :
    write.request.json.length = escapedLength write.content + writeAround write := by
  have hnames : escapedLength (str "type") = 4 ∧ escapedLength (str "fs_write") = 8 ∧ escapedLength (str "path") = 4 ∧
      escapedLength (str "content") = 7 ∧ escapedLength (str "encoding") = 8 ∧ escapedLength (str "mode") = 4 ∧
      escapedLength (str "create_parent") = 13 ∧ escapedLength (str "atomic") = 6 ∧
      escapedLength (str "if_missing") = 10 ∧ escapedLength (str "if_sha256") = 9 := by decide
  simp only [Daemon.FsWrite.request, ControlRequest.json, jsonTagged, jsonObject, jsonCommas, List.map_cons,
    List.map_nil, List.length_append, List.length_cons, List.length_nil, jsonString_length, writeAround]
  omega

/-! ### The two messages -/

/-- Four characters for each three bytes begun, none of which JSON escapes. -/
structure Daemon.Base64.Standard (base64 : Daemon.Base64) : Prop where
  length : ∀ bytes, (base64.encode bytes).length = (bytes.length + 2) / 3 * 4
  plain : ∀ bytes, ∀ b ∈ base64.encode bytes, shortEscaped b = false ∧ longEscaped b = false

namespace Client

open Daemon

/-- What was asked for cannot be done. -/
def invalidRequestFailure (message : Str) : AgentCommandFailure :=
  ⟨str "invalid.request", message, none, false, [], 1⟩

/-- The bytes as a message carries them: as they are if they are text, or in base64. -/
def encodeLocalContent (base64 : Base64) (bytes : Bytes) : ContentEncoding → Except AgentCommandFailure Str
  | .utf8 =>
    if isUtf8 bytes then .ok bytes
    else .error (invalidRequestFailure (str "input is not valid UTF-8; use --encoding base64 instead"))
  | .base64 => .ok (base64.encode bytes)

/-- The request `agent_fs_write_command` sends for its input. -/
def agentFsWriteRequest (base64 : Base64) (write : FsWrite) (bytes : Bytes) :
    Except AgentCommandFailure ControlRequest :=
  match encodeLocalContent base64 bytes write.encoding with
  | .ok content => .ok { write with content := content }.request
  | .error failure => .error failure

/-- The response `handle_fs_read` sends for the bytes it keeps. -/
def fsReadResponse (env : FsEnv) (path : Path) (encoding : ContentEncoding) (bytes : Bytes) (truncated : Bool) :
    Except AnyhowError ControlResponse :=
  match encodeFsContent env bytes encoding with
  | .ok text => .ok (.fsReadResult ⟨path.display, encoding, text, bytes.length, truncated⟩)
  | .error err => .error err

/-- It is what the handler answers on a file that it may read. -/
theorem run_fsRead_response {env : FsEnv} {path : Str} {os : Os} {l : Loc} {mode : ℕ} {content : Bytes}
    (hfile : os.lookup false (.ofStr path) = .ok (l, .inl (.file mode content)))
    (hmay : os.may mode Os.ownerRead = true) (encoding : ContentEncoding) (maxBytes : Option ℕ) :
    (run Os.step (responding (handleFsRead env path encoding maxBytes) .fsReadResult) os).1 =
      fsReadResponse env (.ofStr path) encoding (content.take (readLimit maxBytes))
        (readLimit maxBytes < content.length) := by
  obtain ⟨os', hrun⟩ := @run_handleFsRead env path os l mode content hfile encoding maxBytes
  rw [responding, run_bind, hrun, if_pos hmay, readResult, fsReadResponse]
  cases encodeFsContent env (content.take (readLimit maxBytes)) encoding with
  | ok text => rfl
  | error err => rfl

/-! ### The frame -/

/-- The content in the JSON text, as text or in base64. -/
def inlineLength (bytes : Bytes) : ContentEncoding → ℕ
  | .utf8 => escapedLength bytes
  | .base64 => (bytes.length + 2) / 3 * 4

/-- The response with the bytes fits a frame, and so does the request with them. -/
def InlineFits (env : FsEnv) (path : Path) (write : FsWrite) (bytes : Bytes) (truncated : Bool) : Prop :=
  (∀ response, fsReadResponse env path write.encoding bytes truncated = .ok response →
    response.json.length ≤ maxPayloadLen) ∧
  ∀ request, agentFsWriteRequest env.base64 write bytes = .ok request → request.json.length ≤ maxPayloadLen

/-- What is around the content, in the longer of the two. -/
def inlineAround (path : Path) (write : FsWrite) (bytes : Bytes) (truncated : Bool) : ℕ :=
  max (readAround ⟨path.display, write.encoding, [], bytes.length, truncated⟩) (writeAround write)

/-- The text both sides make of the bytes. -/
theorem encoded_text {env : FsEnv} (hstandard : env.base64.Standard) {encoding : ContentEncoding} {bytes : Bytes}
    (hvalid : encoding = .utf8 → isUtf8 bytes = true) :
    ∃ text, encodeFsContent env bytes encoding = .ok text ∧
      encodeLocalContent env.base64 bytes encoding = .ok text ∧ escapedLength text = inlineLength bytes encoding := by
  cases encoding with
  | utf8 => exact ⟨bytes, if_pos (hvalid rfl), if_pos (hvalid rfl), rfl⟩
  | base64 =>
    refine ⟨env.base64.encode bytes, rfl, rfl, ?_⟩
    rw [escapedLength_of_plain (hstandard.plain bytes), hstandard.length]
    rfl

theorem inlineFits_iff {env : FsEnv} (hstandard : env.base64.Standard) (path : Path) {write : FsWrite}
    {bytes : Bytes} (truncated : Bool) (hvalid : write.encoding = .utf8 → isUtf8 bytes = true) :
    InlineFits env path write bytes truncated ↔
      inlineLength bytes write.encoding + inlineAround path write bytes truncated ≤ maxPayloadLen := by
  obtain ⟨text, hremote, hlocal, hlength⟩ := encoded_text hstandard hvalid
  have hread : fsReadResponse env path write.encoding bytes truncated =
      .ok (.fsReadResult ⟨path.display, write.encoding, text, bytes.length, truncated⟩) := by
    rw [fsReadResponse, hremote]
  have hwrite : agentFsWriteRequest env.base64 write bytes = .ok { write with content := text }.request := by
    rw [agentFsWriteRequest, hlocal]
  simp only [InlineFits, hread, hwrite, Except.ok.injEq, forall_eq', fsReadResult_length, fsWrite_length, hlength]
  rw [inlineAround, ← Nat.add_max_add_left, max_le_iff]
  rfl

theorem jsonBool_length (b : Bool) : (jsonBool b).length ≤ 5 := by cases b <;> decide

theorem encoding_length (encoding : ContentEncoding) : encoding.json.length ≤ 8 := by cases encoding <;> decide

/-- The fields besides the content are of usual sizes: the paths and the digest have
at most 4096 bytes, and the mode is a 32-bit number. -/
structure UsualFields (path : Path) (write : FsWrite) : Prop where
  display : path.display.length ≤ 4096
  path : write.path.length ≤ 4096
  mode : ∀ mode, write.mode = some mode → mode < 2 ^ 32
  digest : ∀ digest, write.ifSha256 = some digest → digest.length ≤ 4096

theorem UsualFields.around {path : Path} {write : FsWrite} (h : UsualFields path write) {bytes : Bytes}
    (hsize : bytes.length ≤ maxAgentFsBytes) (truncated : Bool) :
    inlineAround path write bytes truncated ≤ 65536 := by
  have hbytes : (decimal bytes.length).length ≤ 7 :=
    decimal_length_le (by decide) (lt_of_le_of_lt hsize (by decide))
  have hmode : (jsonOption decimal write.mode).length ≤ 10 := by
    cases hm : write.mode with
    | none => decide
    | some mode => exact decimal_length_le (by decide) (lt_trans (h.mode mode hm) (by decide))
  have hdigest : (jsonOption jsonString write.ifSha256).length ≤ 6 * 4096 + 2 := by
    cases hd : write.ifSha256 with
    | none => decide
    | some digest =>
      have hlength := h.digest digest hd
      have hescaped := escapedLength_le digest
      rw [jsonOption, jsonString_length]
      omega
  have hdisplay := h.display
  have hpath := h.path
  have hescaped := escapedLength_le path.display
  have hescaped' := escapedLength_le write.path
  have hencoding := encoding_length write.encoding
  have htruncated := jsonBool_length truncated
  have hparent := jsonBool_length write.createParent
  have hatomic := jsonBool_length write.atomic
  have hmissing := jsonBool_length write.ifMissing
  simp only [inlineAround, readAround, writeAround]
  omega

/-- **An inline content fits a frame unless too much of it is escaped.** For every
path, content and request, in either encoding: the response and the request fit a
frame if and only if the content in its JSON text and what is around it do. Within
4 MiB, and with paths of at most 4096 bytes, base64 always fits, and so does text
without control characters but the five with a short escape. -/
theorem inline_content_fits_iff {env : FsEnv} (hstandard : env.base64.Standard) (path : Path) (write : FsWrite)
    (bytes : Bytes) (truncated : Bool) (hvalid : write.encoding = .utf8 → isUtf8 bytes = true) :
    (InlineFits env path write bytes truncated ↔
      inlineLength bytes write.encoding + inlineAround path write bytes truncated ≤ maxPayloadLen) ∧
    (UsualFields path write → bytes.length ≤ maxAgentFsBytes →
      write.encoding = .base64 ∨ bytes.countP longEscaped = 0 → InlineFits env path write bytes truncated) := by
  have hiff := @inlineFits_iff env hstandard path write bytes truncated hvalid
  refine ⟨hiff, fun husual hsize hplain => hiff.mpr ?_⟩
  have haround := husual.around hsize truncated
  have hcontent : inlineLength bytes write.encoding ≤ 2 * maxAgentFsBytes := by
    have hmax : maxAgentFsBytes = 4194304 := rfl
    have hshort := List.countP_le_length (p := shortEscaped) (l := bytes)
    cases hencoding : write.encoding with
    | base64 =>
      rw [inlineLength]
      omega
    | utf8 =>
      rw [hencoding] at hplain
      rcases hplain with hbase64 | hlong
      · cases hbase64
      · rw [inlineLength, escapedLength, hlong]
        omega
  calc inlineLength bytes write.encoding + inlineAround path write bytes truncated
      ≤ 2 * maxAgentFsBytes + 65536 := Nat.add_le_add hcontent haround
    _ ≤ maxPayloadLen := by decide

/-! ### Four MiB of zeros -/

/-- The base64 of zero bytes, three at a time. -/
def zeroBase64 : Base64 := ⟨fun bytes => List.replicate ((bytes.length + 2) / 3 * 4) 65, fun _ => .ok []⟩

theorem zeroBase64_standard : zeroBase64.Standard where
  length bytes := List.length_replicate
  plain bytes b hb := by
    obtain rfl := List.eq_of_mem_replicate hb
    decide

/-- The daemon with that base64. -/
def zeroEnv : FsEnv := { testFsEnv with base64 := zeroBase64 }

/-- A write of nothing in an encoding. -/
def zeroWrite (encoding : ContentEncoding) : FsWrite := ⟨str "/f", [], encoding, none, false, false, false, none⟩

/-- So many zero bytes. -/
def zeros (n : ℕ) : Bytes := List.replicate n 0

theorem escapedLength_zeros (n : ℕ) : escapedLength (zeros n) = 6 * n := by
  have hshort : (zeros n).countP shortEscaped = 0 := List.countP_eq_zero.mpr fun b hb => by
    obtain rfl := List.eq_of_mem_replicate hb
    decide
  have hlong : (zeros n).countP longEscaped = (zeros n).length := List.countP_eq_length.mpr fun b hb => by
    obtain rfl := List.eq_of_mem_replicate hb
    decide
  rw [escapedLength, hshort, hlong, zeros, List.length_replicate]
  omega

/-- As text, 4 MiB of zeros are within the cap and fit no frame. -/
theorem zeros_do_not_fit :
    isUtf8 (zeros maxAgentFsBytes) = true ∧ (zeros maxAgentFsBytes).length ≤ maxAgentFsBytes ∧
      (zeroWrite .utf8).path.length ≤ 4096 ∧
      ¬ InlineFits zeroEnv (.ofStr (str "/f")) (zeroWrite .utf8) (zeros maxAgentFsBytes) false := by
  have hvalid : isUtf8 (zeros maxAgentFsBytes) = true := isUtf8_of_ascii fun b hb => by
    obtain rfl := List.eq_of_mem_replicate hb
    decide
  refine ⟨hvalid, ?_, by decide, fun h => ?_⟩
  · rw [zeros, List.length_replicate]
  · rw [inlineFits_iff zeroBase64_standard (.ofStr (str "/f")) false fun _ => hvalid] at h
    have hlong : inlineLength (zeros maxAgentFsBytes) (zeroWrite .utf8).encoding = 6 * maxAgentFsBytes :=
      escapedLength_zeros maxAgentFsBytes
    have hcap : maxPayloadLen < 6 * maxAgentFsBytes := by decide
    omega

/-- Three zeros in base64 fit, and so does a text with a quote in it. -/
theorem short_contents_fit :
    InlineFits zeroEnv (.ofStr (str "/f")) (zeroWrite .base64) (zeros 3) false ∧
      InlineFits zeroEnv (.ofStr (str "/f")) (zeroWrite .utf8) (str "say \"hi\"") false := by
  have husual : ∀ encoding, UsualFields (.ofStr (str "/f")) (zeroWrite encoding) := fun encoding =>
    ⟨by decide, show (str "/f").length ≤ 4096 by decide, nofun, nofun⟩
  constructor
  · exact (inline_content_fits_iff zeroBase64_standard _ (zeroWrite .base64) (zeros 3) false nofun).2 (husual .base64)
      (by decide) (Or.inl rfl)
  · exact (inline_content_fits_iff zeroBase64_standard _ (zeroWrite .utf8) _ false (fun _ => by decide)).2 (husual .utf8)
      (by decide) (Or.inr (by decide))

end Client

end Rsdb
