/-
# Reading a part of a file

`handle_fs_read` reads one byte more than its limit, to see whether there is more,
and keeps the bytes up to the limit (`run_handleFsRead`). As text these are refused
if they are no valid UTF-8. For a file that is valid UTF-8 and can be read that
happens exactly when the limit is inside a character (`limited_read_iff`).
-/
import Rsdb.Daemon.Request

namespace Rsdb

open Prog (run run_call run_bind run_bind_ok run_ofExcept)
open Os

/-! ### At most so many bytes -/

/-- What is read of an open file, where the reads are enough. -/
theorem run_readAtMost {fd : ℕ} {content : Bytes} : ∀ {fuel remaining : ℕ} (acc : Bytes) {os : Os} {h : Handle},
    remaining ≤ fuel → os.handles[fd]? = some h → os.contentOf h = some content →
      ∃ os', run Os.step (Act.readAtMost fd fuel remaining acc) os =
        (.ok (acc ++ (content.drop h.offset).take remaining), os')
  | 0, 0, acc, os, h, _, _, _ => ⟨os, by rw [List.take_zero, List.append_nil]; rfl⟩
  | fuel + 1, 0, acc, os, h, _, _, _ => ⟨os, by rw [List.take_zero, List.append_nil]; rfl⟩
  | fuel + 1, remaining + 1, acc, os, h, hfuel, hget, hcontent => by
    set data := (content.drop h.offset).take (remaining + 1) with hdata
    set os₁ := os.setHandle fd { h with offset := h.offset + data.length } with hos₁
    have hread : os.read fd (remaining + 1) = .ok (data, os₁) := by
      simp only [Os.read, hget, hcontent, hdata, hos₁]
    have hstep : run Os.step (Act.readAtMost fd (fuel + 1) (remaining + 1) acc) os =
        run Os.step (if data = [] then pure acc
          else Act.readAtMost fd fuel (remaining + 1 - data.length) (acc ++ data)) os₁ := by
      have hanswer : Os.step (.read fd (remaining + 1)) os = (.ok data, os₁) := by
        show os.answer (os.read fd (remaining + 1)) = _
        rw [hread]
        rfl
      rw [Act.readAtMost, run_bind, Act.read, Prog.run_ask, hanswer]
      rfl
    rw [hstep]
    by_cases hnil : data = []
    · rw [if_pos hnil, hnil, List.append_nil]
      exact ⟨os₁, rfl⟩
    · rw [if_neg hnil]
      have hpos : 0 < data.length := List.length_pos_of_ne_nil hnil
      have hlt : fd < os.handles.length := (List.getElem?_eq_some_iff.mp hget).1
      have hget' : os₁.handles[fd]? = some { h with offset := h.offset + data.length } := by
        show (os.handles.set fd _)[fd]? = _
        rw [List.getElem?_set_self hlt]
      have hcontent' : os₁.contentOf { h with offset := h.offset + data.length } = some content := hcontent
      have hfuel' : remaining + 1 - data.length ≤ fuel := by omega
      obtain ⟨os', hrun⟩ := run_readAtMost (acc ++ data) hfuel' hget' hcontent'
      -- what is read now and what is left make up what was asked for
      have hrest : (content.drop (h.offset + data.length)).take (remaining + 1 - data.length) = [] := by
        rw [← List.drop_drop, ← List.drop_take, ← hdata, List.drop_length]
      rw [hrest, List.append_nil] at hrun
      exact ⟨os', hrun⟩

namespace Daemon

variable {env : FsEnv}

/-! ### A regular file -/

/-- What is sent of the bytes of a file that can be opened. -/
def readResult (env : FsEnv) (path : Path) (encoding : ContentEncoding) (limit : ℕ) (content : Bytes) :
    Except AnyhowError AgentFsReadResult :=
  match encodeFsContent env (content.take limit) encoding with
  | .ok text => .ok ⟨path.display, encoding, text, (content.take limit).length, limit < content.length⟩
  | .error err => .error err

/-- The handler on a regular file. -/
theorem run_handleFsRead {path : Str} {os : Os} {l : Loc} {mode : ℕ} {content : Bytes}
    (hfile : os.lookup false (.ofStr path) = .ok (l, .inl (.file mode content))) (encoding : ContentEncoding)
    (maxBytes : Option ℕ) :
    ∃ os', run Os.step (handleFsRead env path encoding maxBytes) os =
      (if os.may mode ownerRead then readResult env (.ofStr path) encoding (readLimit maxBytes) content
        else .error ((AnyhowError.ofIo IoErrorKind.permissionDenied.toError).context
          (str "failed to open " ++ (Path.ofStr path).display)), os') := by
  have hpath : path ≠ [] := by
    rintro rfl
    cases hfile
  have hvalid : validateFsPath path = .ok (.ofStr path) := if_neg hpath
  have hlookup := lookup_of_file hfile
  have hstat : run Os.step (handleFsRead env path encoding maxBytes) os =
      run Os.step (do
        let fd ← Act.ioContext (str "failed to open " ++ (Path.ofStr path).display) (← Act.openRead (.ofStr path))
        let bytes ← Act.readAtMost fd (readLimit maxBytes + 1) (readLimit maxBytes + 1) []
        let content ← .ofExcept (encodeFsContent env (bytes.take (readLimit maxBytes)) encoding)
        pure ⟨(Path.ofStr path).display, encoding, content, (bytes.take (readLimit maxBytes)).length,
          readLimit maxBytes < bytes.length⟩) os := by
    rw [handleFsRead, hvalid, Prog.ofExcept_ok, Prog.pure_bind]
    show run Os.step (.call (.lstat _) _) os = _
    rw [run_call, Os.step_lstat, hfile]
    rfl
  rw [hstat]
  have hopen : Os.step (.openRead (.ofStr path)) os = os.answer (os.openRead (.ofStr path)) := rfl
  rw [run_bind, Act.openRead, Prog.run_ask, hopen, Os.openRead, hlookup]
  by_cases hmay : os.may mode ownerRead = true
  · simp only [hmay, ↓reduceIte]
    obtain ⟨hget, hcontent⟩ := addHandle_content (lookup_eq_ok hlookup).2.1
    obtain ⟨os', hrun⟩ := run_readAtMost [] (Nat.le_refl (readLimit maxBytes + 1)) hget hcontent
    rw [List.nil_append, List.drop_zero] at hrun
    refine ⟨os', ?_⟩
    have hkept : (content.take (readLimit maxBytes + 1)).take (readLimit maxBytes) =
        content.take (readLimit maxBytes) := by
      rw [List.take_take, Nat.min_eq_left (Nat.le_succ _)]
    have hmore : readLimit maxBytes < (content.take (readLimit maxBytes + 1)).length ↔
        readLimit maxBytes < content.length := by
      rw [List.length_take]
      omega
    show run Os.step (Act.readAtMost os.handles.length (readLimit maxBytes + 1) (readLimit maxBytes + 1) [] >>= _)
      (os.addHandle ⟨.inl l, 0⟩).2 = _
    rw [run_bind, hrun]
    simp only [hkept, hmore, readResult]
    cases encodeFsContent env (content.take (readLimit maxBytes)) encoding with
    | ok text => rfl
    | error err => rfl
  · simp only [hmay, Bool.false_eq_true, ↓reduceIte]
    exact ⟨os, rfl⟩

/-! ### The law of a limited read -/

/-- The text is the beginning of the file, up to the limit, with its length and
whether there is more. -/
structure LimitedRead (content : Bytes) (limit : ℕ) (result : AgentFsReadResult) : Prop where
  start : result.content <+: content
  within : result.content.length ≤ limit
  bytes : result.bytes = result.content.length
  truncated : result.truncated = true ↔ limit < content.length

/-- The answer is a result exactly when the handler has one, if it fits a frame. -/
theorem fsAnswer_read_iff {json : ControlResponse → Bytes} {handler : Act AgentFsReadResult} {os : Os}
    (hfits : ∀ result, (run Os.step handler os).1 = .ok result → Fits json (.fsReadResult result))
    (result : AgentFsReadResult) :
    fsAnswer json (run Os.step (responding handler .fsReadResult) os).1 = .fsReadResult result ↔
      (run Os.step handler os).1 = .ok result := by
  rw [responding, run_bind]
  rcases hrun : run Os.step handler os with ⟨outcome, os'⟩
  rw [hrun] at hfits
  cases outcome with
  | error err => exact iff_of_false (fun h => by cases h) fun h => by cases h
  | ok found =>
    have hanswer : fsAnswer json (.ok (.fsReadResult found)) = .fsReadResult found := if_pos (hfits found rfl)
    simp only [Prog.run_pure, hanswer, ControlResponse.fsReadResult.injEq, Except.ok.injEq]

/-- Up to the limit the file is text, unless the limit is inside a character. -/
theorem isUtf8_take_iff {content : Bytes} (h : isUtf8 content = true) (limit : ℕ) :
    isUtf8 (content.take limit) = true ↔ content.length ≤ limit ∨ isBoundary limit content = true := by
  rcases Nat.le_total content.length limit with hle | hle
  · rw [List.take_of_length_le hle]
    exact iff_of_true h (Or.inl hle)
  · rw [isUtf8_take h hle]
    refine ⟨Or.inr, fun hor => hor.elim (fun hge => ?_) id⟩
    -- the whole file ends at a boundary
    obtain rfl : content.length = limit := Nat.le_antisymm hge hle
    rw [← isUtf8_take h hle, List.take_length, h]

/-- **A limited read of text succeeds unless its limit is inside a character.** For
every regular file with a content that is valid UTF-8, and every limit, where the
answer fits a frame: the daemon answers with the beginning of the file if and only
if it may read the file, and the file is no longer than the limit or a character
ends there. -/
theorem limited_read_iff (json : ControlResponse → Bytes) {path : Str} {maxBytes : Option ℕ} {os : Os} {l : Loc}
    {mode : ℕ} {content : Bytes} (hfile : os.lookup false (.ofStr path) = .ok (l, .inl (.file mode content)))
    (hutf8 : isUtf8 content = true)
    (hfits : ∀ result, (run Os.step (handleFsRead env path .utf8 maxBytes) os).1 = .ok result →
      Fits json (.fsReadResult result)) :
    (∃ result, fsAnswer json (run Os.step (responding (handleFsRead env path .utf8 maxBytes) .fsReadResult) os).1 =
        .fsReadResult result ∧ LimitedRead content (readLimit maxBytes) result) ↔
      os.may mode ownerRead = true ∧
        (content.length ≤ readLimit maxBytes ∨ isBoundary (readLimit maxBytes) content = true) := by
  simp only [fsAnswer_read_iff hfits]
  obtain ⟨os', hrun⟩ := @run_handleFsRead env path os l mode content hfile .utf8 maxBytes
  rw [hrun, ← isUtf8_take_iff hutf8]
  by_cases hmay : os.may mode ownerRead = true
  · have hread : readResult env (.ofStr path) .utf8 (readLimit maxBytes) content =
        if isUtf8 (content.take (readLimit maxBytes)) then
          .ok ⟨(Path.ofStr path).display, .utf8, content.take (readLimit maxBytes),
            (content.take (readLimit maxBytes)).length, readLimit maxBytes < content.length⟩
        else .error (invalidRequest (str "file is not valid UTF-8")) := by
      unfold readResult encodeFsContent
      split_ifs <;> rfl
    simp only [hmay, ↓reduceIte, hread, true_and]
    constructor
    · rintro ⟨result, hok, -⟩
      by_contra hno
      rw [if_neg hno] at hok
      cases hok
    · intro htext
      refine ⟨_, if_pos htext, List.take_prefix _ _, ?_, rfl, decide_eq_true_iff⟩
      rw [List.length_take]
      exact Nat.min_le_left _ _
  · simp only [hmay, Bool.false_eq_true, ↓reduceIte, false_and, iff_false]
    rintro ⟨result, hok, -⟩
    cases hok

/-! ### A character at the limit -/

theorem isName_a : IsName (str "a") := by decide

/-- A file `/a` with a one-byte and a two-byte character. -/
def accentFileOs : Os := Os.fresh.withLeaf [⟨str "a", isName_a⟩] (.file 0o644 [0x61, 0xC3, 0xA9])

theorem accentFile_file : accentFileOs.lookup false (.ofStr (str "/a")) =
    .ok ([⟨str "a", by decide⟩], .inl (.file 0o644 [0x61, 0xC3, 0xA9])) := by decide +kernel

/-- What the handler has for a limit. -/
def accentRead (limit : ℕ) : Except AnyhowError AgentFsReadResult :=
  (run Os.step (handleFsRead testFsEnv (str "/a") .utf8 (some limit)) accentFileOs).1

/-- A limit of two bytes is refused. -/
theorem limited_read_inside_character :
    isUtf8 [0x61, 0xC3, 0xA9] = true ∧
      (∀ result, accentRead 2 = .ok result → Fits ControlResponse.json (.fsReadResult result)) ∧
      ¬ ∃ result, fsAnswer ControlResponse.json
          (run Os.step (responding (handleFsRead testFsEnv (str "/a") .utf8 (some 2)) .fsReadResult) accentFileOs).1 =
            .fsReadResult result ∧ LimitedRead [0x61, 0xC3, 0xA9] 2 result := by
  have hrefused : accentRead 2 = .error (invalidRequest (str "file is not valid UTF-8")) := by decide +kernel
  have hfits : ∀ result, accentRead 2 = .ok result → Fits ControlResponse.json (.fsReadResult result) := by
    intro result h
    rw [hrefused] at h
    cases h
  refine ⟨by decide, hfits, ?_⟩
  rintro ⟨result, hanswer, -⟩
  have hok : accentRead 2 = .ok result := (fsAnswer_read_iff hfits result).mp hanswer
  rw [hrefused] at hok
  cases hok

/-- A limit of one byte is between the two. -/
theorem limited_read_between_characters :
    (∃ result, fsAnswer ControlResponse.json
        (run Os.step (responding (handleFsRead testFsEnv (str "/a") .utf8 (some 1)) .fsReadResult) accentFileOs).1 =
          .fsReadResult result ∧ LimitedRead [0x61, 0xC3, 0xA9] 1 result) ↔
      accentFileOs.may 0o644 ownerRead = true ∧
        ([0x61, 0xC3, 0xA9].length ≤ 1 ∨ isBoundary 1 [0x61, 0xC3, 0xA9] = true) := by
  have hread : accentRead 1 = .ok ⟨str "/a", .utf8, str "a", 1, true⟩ := by decide +kernel
  refine limited_read_iff ControlResponse.json accentFile_file (by decide) fun result h => ?_
  obtain rfl := Except.ok.inj (hread.symm.trans h)
  decide

end Daemon

end Rsdb
