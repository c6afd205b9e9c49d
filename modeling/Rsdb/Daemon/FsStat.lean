/-
# The daemon's `fs.stat`

`handle_fs_stat` looks at a path without following a link at its end
(`symlink_metadata`), and hashes the file if it is asked to. The digest is a
parameter, and so is the number of reads a hash may take: a file is read in
chunks until a read gives nothing.
-/
import Rsdb.Transfer.Receive
import Rsdb.Os.Resolve

namespace Rsdb

open Prog (run run_call run_ask run_bind run_bind_ok run_ofExcept)

namespace Act

/-- `File::open`. -/
def openRead (p : Path) : Act (Except IoError ℕ) := Prog.ask (Call.openRead p)

/-- One `read` of at most `n` bytes. -/
def read (fd n : ℕ) : Act (Except IoError Bytes) := Prog.ask (Call.read fd n)

/-- Reads until one gives nothing; `fuel` bounds their number. -/
def readToEnd (fd : ℕ) : ℕ → Bytes → Act Bytes
  | 0, _ => bail (str "too many reads")
  | fuel + 1, content => do
    let data ← io (← read fd defaultStreamChunkSize)
    if data = [] then pure content else readToEnd fd fuel (content ++ data)

end Act

/-- What is a file by its metadata. -/
theorem Obj.of_isFile {os : Os} {l : Loc} {obj : Obj} (h : (os.metadata l obj).isFile = true) :
    ∃ mode content, obj = .inl (.file mode content) := by
  match obj with
  | .inl (.file mode content) => exact ⟨mode, content, rfl⟩
  | .inl (.symlink target) => cases h
  | .inl (.other mode) => cases h
  | .inr mode => cases h

namespace Daemon

/-- `FsInvalidRequestError`. -/
def invalidRequest (message : Str) : AnyhowError := ⟨message, [.invalidRequest]⟩

/-- `fs_precondition_failed`. -/
def preconditionFailed (message : Str) : AnyhowError := ⟨message, [.precondition]⟩

/-- A path of a request is not empty. -/
def validateFsPath (path : Str) : Except AnyhowError Path :=
  if path = [] then .error (invalidRequest (str "path must not be empty")) else .ok (Path.ofStr path)

/-- `symlink_metadata`, for which nothing being there is an answer. -/
def existingMetadata (path : Path) : Act (Option Metadata) := do
  match ← Act.lstat path with
  | .ok metadata => pure (some metadata)
  | .error err =>
    if err.kind = .notFound then pure none
    else .fail ((AnyhowError.ofIo err).context (str "failed to stat " ++ path.display))

theorem run_existingMetadata (os : Os) (p : Path) :
    run Os.step (existingMetadata p) os =
      match os.lookup false p with
      | .ok found => (.ok (some (os.metadata found.1 found.2)), os)
      | .error kind =>
        if kind = .notFound then (.ok none, os)
        else (.error ((AnyhowError.ofIo kind.toError).context (str "failed to stat " ++ p.display)), os) := by
  show run Os.step (.call (.lstat p) _) os = _
  rw [Prog.run_call, Os.step_lstat]
  cases os.lookup false p with
  | ok found => rfl
  | error kind => cases kind <;> rfl

/-- What is there, or that nothing is. -/
theorem existingMetadata_ok {os os' : Os} {p : Path} {existing : Option Metadata}
    (h : run Os.step (existingMetadata p) os = (.ok existing, os')) :
    os' = os ∧ ((existing = none ∧ os.lookup false p = .error .notFound) ∨
      ∃ l obj, existing = some (os.metadata l obj) ∧ os.lookup false p = .ok (l, obj)) := by
  rw [run_existingMetadata] at h
  cases hlookup : os.lookup false p with
  | ok found =>
    rw [hlookup] at h
    obtain ⟨hsome, rfl⟩ := Prod.mk.inj h
    exact ⟨rfl, Or.inr ⟨found.1, found.2, (Except.ok.inj hsome).symm, rfl⟩⟩
  | error kind =>
    rw [hlookup] at h
    by_cases hkind : kind = .notFound
    · subst hkind
      obtain ⟨hnone, rfl⟩ := Prod.mk.inj h
      exact ⟨rfl, Or.inl ⟨(Except.ok.inj hnone).symm, rfl⟩⟩
    · simp only [if_neg hkind] at h
      cases h

section Hash

variable (sha256 : Bytes → Str) (fuel : ℕ)

/-- The digest of what a path leads to. -/
def sha256Path (path : Path) : Act Str := do
  let fd ← Act.ioContext (str "failed to open " ++ path.display ++ str " for hashing") (← Act.openRead path)
  let content ← Act.readToEnd fd fuel []
  pure (sha256 content)

/-- The digest of a regular file, if one is asked for. -/
def hashOf (path : Path) (metadata : Metadata) : Option HashAlgorithm → Act (Option Str)
  | some .sha256 => if metadata.isFile then do pure (some (← sha256Path sha256 fuel path)) else pure none
  | none => pure none

/-- The file system keeps no times: what `metadata_mtime_unix_ms` gives for a
path is a parameter. -/
def buildFsStat (mtimeUnixMs : Path → Option ℕ) (path : Path) (metadata : Metadata) (hash : Option HashAlgorithm) :
    Act AgentFsStat := do
  let digest ← hashOf sha256 fuel path metadata hash
  pure ⟨path.display, true, some metadata.kind, some metadata.size, some (metadata.mode &&& 0o7777), mtimeUnixMs path,
    digest⟩

/-- What is at a path, or that nothing is. -/
def blockingFsStat (mtimeUnixMs : Path → Option ℕ) (path : Path) (hash : Option HashAlgorithm) : Act AgentFsStat := do
  match ← Act.lstat path with
  | .ok metadata => buildFsStat sha256 fuel mtimeUnixMs path metadata hash
  | .error err =>
    if err.kind = .notFound then pure ⟨path.display, false, none, none, none, none, none⟩
    else .fail ((AnyhowError.ofIo err).context (str "failed to stat " ++ path.display))

/-- `fs.stat`. -/
def handleFsStat (mtimeUnixMs : Path → Option ℕ) (path : Str) (hash : Option HashAlgorithm) : Act AgentFsStat := do
  let requested ← .ofExcept (validateFsPath path)
  blockingFsStat sha256 fuel mtimeUnixMs requested hash

end Hash

/-! ### What a digest is of -/

theorem validateFsPath_eq_ok {path : Str} {requested : Path} (h : validateFsPath path = .ok requested) :
    requested = .ofStr path := by
  unfold validateFsPath at h
  split at h
  · cases h
  · exact (Except.ok.inj h).symm

/-- What reading to the end gives is the rest of the file, and it gives that
where enough reads are allowed. -/
theorem run_readToEnd {fd : ℕ} {content : Bytes} : ∀ (fuel : ℕ) (acc : Bytes) {os : Os} {h : Handle},
    os.handles[fd]? = some h → os.contentOf h = some content →
      ∃ result os', run Os.step (Act.readToEnd fd fuel acc) os = (result, os') ∧
        (∀ r, result = .ok r → r = acc ++ content.drop h.offset) ∧
        ((content.drop h.offset).length < fuel → ∃ r, result = .ok r)
  | 0, acc, os, h, _, _ => ⟨_, _, rfl, (fun _ h => by cases h), fun h => absurd h (Nat.not_lt_zero _)⟩
  | fuel + 1, acc, os, h, hget, hcontent => by
    set data := (content.drop h.offset).take defaultStreamChunkSize with hdata
    have hread : os.read fd defaultStreamChunkSize =
        .ok (data, os.setHandle fd { h with offset := h.offset + data.length }) := by
      simp only [Os.read, hget, hcontent, hdata]
    have hstep : run Os.step (Act.readToEnd fd (fuel + 1) acc) os =
        run Os.step (if data = [] then pure acc else Act.readToEnd fd fuel (acc ++ data))
          (os.setHandle fd { h with offset := h.offset + data.length }) := by
      have hanswer : Os.step (.read fd defaultStreamChunkSize) os =
          (.ok data, os.setHandle fd { h with offset := h.offset + data.length }) := by
        show os.answer (os.read fd defaultStreamChunkSize) = _
        rw [hread]
        rfl
      rw [Act.readToEnd, run_bind, Act.read, run_ask, hanswer]
      rfl
    rw [hstep]
    by_cases hnil : data = []
    · rw [if_pos hnil]
      have hrest : content.drop h.offset = [] := by
        rcases List.take_eq_nil_iff.mp hnil with hzero | hrest
        · cases hzero
        · exact hrest
      exact ⟨.ok acc, _, rfl, fun r hr => by rw [hrest, List.append_nil]; exact (Except.ok.inj hr).symm, fun _ => ⟨_, rfl⟩⟩
    · rw [if_neg hnil]
      have hlt : fd < os.handles.length := (List.getElem?_eq_some_iff.mp hget).1
      have hget' : (os.setHandle fd { h with offset := h.offset + data.length }).handles[fd]? =
          some { h with offset := h.offset + data.length } := by
        show (os.handles.set fd _)[fd]? = _
        rw [List.getElem?_set_self hlt]
      have hsplit : data ++ content.drop (h.offset + data.length) = content.drop h.offset := by
        rw [← List.drop_drop, hdata, List.length_take]
        rcases Nat.le_total defaultStreamChunkSize (content.drop h.offset).length with hle | hle
        · rw [Nat.min_eq_left hle, List.take_append_drop]
        · rw [Nat.min_eq_right hle, List.take_of_length_le hle, List.drop_length, List.append_nil]
      have hcontent' : (os.setHandle fd { h with offset := h.offset + data.length }).contentOf
          { h with offset := h.offset + data.length } = some content := hcontent
      obtain ⟨result, os', hrun, hok, henough⟩ := run_readToEnd fuel (acc ++ data) hget' hcontent'
      refine ⟨result, os', hrun, fun r hr => ?_, fun hlen => henough ?_⟩
      · rw [hok r hr, List.append_assoc, hsplit]
      · have hpos : 0 < data.length := List.length_pos_of_ne_nil hnil
        have hlen' := congrArg List.length hsplit
        rw [List.length_append] at hlen'
        show (content.drop (h.offset + data.length)).length < fuel
        omega

variable {sha256 : Bytes → Str} {fuel : ℕ}

/-- What is read of a file that can be opened. -/
theorem run_sha256Path {p : Path} {os : Os} {l : Loc} {mode : ℕ} {content : Bytes}
    (hlookup : os.lookup true p = .ok (l, .inl (.file mode content))) (hmay : os.may mode Os.ownerRead = true) :
    ∃ result os', run Os.step (sha256Path sha256 fuel p) os = (result, os') ∧
      (∀ digest, result = .ok digest → digest = sha256 content) ∧
      (content.length < fuel → ∃ digest, result = .ok digest) := by
  have hopen : Os.step (.openRead p) os = (.ok os.handles.length, (os.addHandle ⟨.inl l, 0⟩).2) := by
    show os.answer (os.openRead p) = _
    rw [Os.openRead, hlookup]
    simp only [hmay, ↓reduceIte]
    rfl
  obtain ⟨hget, hcontent⟩ := Os.addHandle_content (Os.lookup_eq_ok hlookup).2.1
  obtain ⟨result, os', hrun, hok, henough⟩ := run_readToEnd fuel [] hget hcontent
  have hwhole : run Os.step (sha256Path sha256 fuel p) os =
      run Os.step (Act.readToEnd os.handles.length fuel [] >>= fun content => pure (sha256 content))
        (os.addHandle ⟨.inl l, 0⟩).2 := by
    rw [sha256Path, run_bind, Act.openRead, run_ask, hopen]
    rfl
  rw [hwhole, run_bind, hrun]
  cases result with
  | error err => exact ⟨_, _, rfl, (fun _ h => by cases h), fun h => by cases (henough h).choose_spec⟩
  | ok read =>
    refine ⟨_, _, rfl, fun digest h => ?_, fun _ => ⟨_, rfl⟩⟩
    rw [← Except.ok.inj h, hok read rfl, List.nil_append, List.drop_zero]

/-- A digest is that of a file. -/
theorem sha256Path_eq_ok {p : Path} {os os' : Os} {digest : Str}
    (h : run Os.step (sha256Path sha256 fuel p) os = (.ok digest, os')) :
    ∃ l mode content, os.lookup true p = .ok (l, .inl (.file mode content)) ∧ digest = sha256 content := by
  have hopened : ∃ fd os₁, os.openRead p = .ok (fd, os₁) := by
    cases hopen : os.openRead p with
    | ok opened => exact ⟨opened.1, opened.2, rfl⟩
    | error kind =>
      have hstep : Os.step (.openRead p) os = (.error kind.toError, os) := by
        show os.answer (os.openRead p) = _
        rw [hopen]
        rfl
      rw [sha256Path, run_bind, Act.openRead, run_ask, hstep] at h
      cases h
  obtain ⟨fd, os₁, hopen⟩ := hopened
  unfold Os.openRead at hopen
  split at hopen
  · cases hopen
  · rename_i l mode content hlookup
    split at hopen
    · rename_i hmay
      obtain ⟨result, os'', hrun, hok, -⟩ := @run_sha256Path sha256 fuel _ _ _ _ _ hlookup hmay
      rw [h] at hrun
      obtain ⟨rfl, rfl⟩ := Prod.mk.inj hrun
      exact ⟨l, mode, content, hlookup, hok digest rfl⟩
    · cases hopen
  · cases hopen
  · cases hopen

theorem run_blockingFsStat (mtimeUnixMs : Path → Option ℕ) (p : Path) (hash : Option HashAlgorithm) (os : Os) :
    run Os.step (blockingFsStat sha256 fuel mtimeUnixMs p hash) os =
      match os.lookup false p with
      | .ok found => run Os.step (buildFsStat sha256 fuel mtimeUnixMs p (os.metadata found.1 found.2) hash) os
      | .error kind =>
        if kind = .notFound then (.ok ⟨p.display, false, none, none, none, none, none⟩, os)
        else (.error ((AnyhowError.ofIo kind.toError).context (str "failed to stat " ++ p.display)), os) := by
  show run Os.step (.call (.lstat p) _) os = _
  rw [run_call, Os.step_lstat]
  cases os.lookup false p with
  | ok found => rfl
  | error kind => cases kind <;> rfl

theorem hashOf_of_isFile {p : Path} {metadata : Metadata} (h : metadata.isFile = true) :
    hashOf sha256 fuel p metadata (some .sha256) = sha256Path sha256 fuel p >>= fun digest => pure (some digest) := by
  show (if metadata.isFile = true then _ else _) = _
  rw [if_pos h]

theorem hashOf_of_not_isFile {p : Path} {metadata : Metadata} (h : metadata.isFile = false) :
    hashOf sha256 fuel p metadata (some .sha256) = pure none := by
  show (if metadata.isFile = true then _ else _) = _
  rw [if_neg (by rw [h]; exact Bool.false_ne_true)]

/-- The stat of a file that can be read, where enough reads are allowed. -/
theorem run_handleFsStat_of_file {mtimeUnixMs : Path → Option ℕ} {path : Str} {os : Os} {l : Loc} {mode : ℕ} {content : Bytes} (hpath : path ≠ [])
    (hlookup : os.lookup false (.ofStr path) = .ok (l, .inl (.file mode content)))
    (hmay : os.may mode Os.ownerRead = true) (henough : content.length < fuel) :
    ∃ os', run Os.step (handleFsStat sha256 fuel mtimeUnixMs path (some .sha256)) os =
      (.ok ⟨(Path.ofStr path).display, true, some .file, some content.length, some (mode &&& 0o7777),
        mtimeUnixMs (.ofStr path), some (sha256 content)⟩, os') := by
  obtain ⟨result, os', hrun, hok, hreturns⟩ := @run_sha256Path sha256 fuel _ _ _ _ _ (Os.lookup_of_file hlookup) hmay
  obtain ⟨digest, rfl⟩ := hreturns henough
  obtain rfl := hok digest rfl
  have hvalid : validateFsPath path = .ok (.ofStr path) := if_neg hpath
  have hfile : (os.metadata l (.inl (.file mode content))).isFile = true := rfl
  refine ⟨os', (run_bind_ok Os.step).mpr ⟨.ofStr path, os, by rw [hvalid, run_ofExcept], ?_⟩⟩
  rw [run_blockingFsStat, hlookup]
  refine (run_bind_ok Os.step).mpr ⟨some (sha256 content), os', ?_, rfl⟩
  rw [hashOf_of_isFile hfile]
  exact (run_bind_ok Os.step).mpr ⟨sha256 content, os', hrun, rfl⟩

/-- The digest of a stat is that of the file there. -/
theorem handleFsStat_sha256 {mtimeUnixMs : Path → Option ℕ} {path : Str} {os os' : Os} {stat : AgentFsStat} {digest : Str}
    (h : run Os.step (handleFsStat sha256 fuel mtimeUnixMs path (some .sha256)) os = (.ok stat, os'))
    (hdigest : stat.sha256 = some digest) :
    ∃ content, os.fileContent (.ofStr path) = some content ∧ digest = sha256 content := by
  obtain ⟨requested, os₁, hvalid, hrest⟩ := (run_bind_ok Os.step).mp h
  rw [run_ofExcept] at hvalid
  obtain ⟨hpath, rfl⟩ := Prod.mk.inj hvalid
  obtain rfl := validateFsPath_eq_ok hpath
  rw [run_blockingFsStat] at hrest
  cases hlookup : os.lookup false (.ofStr path) with
  | error kind =>
    rw [hlookup] at hrest
    simp only at hrest
    split at hrest
    · obtain ⟨hstat, -⟩ := Prod.mk.inj hrest
      rw [← Except.ok.inj hstat] at hdigest
      cases hdigest
    · cases hrest
  | ok found =>
    obtain ⟨l, obj⟩ := found
    rw [hlookup] at hrest
    obtain ⟨hashed, os₂, hhash, hbuilt⟩ := (run_bind_ok Os.step).mp hrest
    obtain ⟨hstat, -⟩ := Prod.mk.inj hbuilt
    rw [← Except.ok.inj hstat] at hdigest
    obtain rfl : hashed = some digest := hdigest
    cases hfile : (os.metadata l obj).isFile with
    | false =>
      rw [hashOf_of_not_isFile hfile] at hhash
      cases hhash
    | true =>
      obtain ⟨mode, content, rfl⟩ := Obj.of_isFile hfile
      rw [hashOf_of_isFile hfile] at hhash
      obtain ⟨digest', os₃, hrun, hsome⟩ := (run_bind_ok Os.step).mp hhash
      obtain ⟨l', mode', content', hfollow, rfl⟩ := sha256Path_eq_ok hrun
      rw [Os.lookup_of_file hlookup] at hfollow
      cases hfollow
      refine ⟨content, Os.fileContent_eq_some.mpr ⟨l, mode, hlookup⟩, ?_⟩
      exact (Option.some.inj (Except.ok.inj (Prod.mk.inj hsome).1)).symm

end Daemon

end Rsdb
