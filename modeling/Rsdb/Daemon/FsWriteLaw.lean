/-
# What `fs.write` promises

`handle_fs_write` looks before it writes (`fsWriteStart`), but with
`create_parent` it creates the parent directories before it looks. A write that
is refused leaves the filesystem as it was exactly when there was no directory to
create (`refused_write_changes_nothing_iff`).
-/
import Rsdb.Daemon.FsWrite
import Rsdb.Transfer.Received

namespace Rsdb

open Prog (run run_call run_bind run_bind_ok run_ofExcept bind_assoc)
open Os

namespace Os

/-! ### The directories that are created -/

/-- The directory `create_dir_all` makes first, if it makes one: of the path and
its parents, innermost first, the first one that is not missing a parent. -/
def firstMade (os : Os) : List Path → Option Path
  | [] => none
  | p :: parents =>
    match os.mkdir p with
    | .ok _ => some p
    | .error e => if e = .notFound ∧ p.parent ≠ none then firstMade os parents else none

/-- There is something where there was nothing. -/
def Grown (os os' : Os) : Prop := ∃ l, os.view l = none ∧ os'.view l ≠ none

theorem mkdir_made {os os' : Os} {p : Path} (h : os.mkdir p = .ok os') :
    MadeDirs (fun _ => True) os os' ∧ Grown os os' := by
  obtain ⟨l, hr, -, hplaced⟩ := mkdir_eq_ok h
  have hnone : os.view l = none := (resolve_sound hr).1
  refine ⟨⟨hplaced.toSameProcess, fun k => ?_⟩, l, hnone, by rw [hplaced.self]; exact Option.some_ne_none _⟩
  by_cases hk : k = l
  · subst hk
    exact Or.inr ⟨hnone, hplaced.self, trivial⟩
  · exact Or.inl (hplaced.other hk)

theorem Grown.made {a b c : Os} (h : Grown a b) (h' : MadeDirs (fun _ => True) b c) : Grown a c := by
  obtain ⟨l, hnone, hsome⟩ := h
  refine ⟨l, hnone, ?_⟩
  rcases h'.view l with heq | ⟨hb, -, -⟩
  · rwa [heq]
  · exact absurd hb hsome

/-- `create_dir_all` only creates directories, and it does exactly where there is
one it can make. -/
theorem run_createDirs_made : ∀ (ps : List Path) (os : Os), ∃ r os', run step (Act.createDirs ps) os = (.ok r, os') ∧
    MadeDirs (fun _ => True) os os' ∧ (os.firstMade ps = none → os' = os) ∧ (os.firstMade ps ≠ none → Grown os os')
  | [], os => ⟨.ok (), os, rfl, MadeDirs.refl _ os, fun _ => rfl, fun h => absurd rfl h⟩
  | p :: parents, os => by
    rw [run_createDirs, firstMade]
    cases hm : os.mkdir p with
    | ok os₁ =>
      obtain ⟨hmade, hgrown⟩ := mkdir_made hm
      exact ⟨.ok (), os₁, rfl, hmade, (fun h => by cases h), fun _ => hgrown⟩
    | error e =>
      simp only
      by_cases he : e = .notFound
      · by_cases hparent : p.parent = none
        · rw [if_neg (not_not_intro he), if_pos hparent, if_neg fun h => h.2 hparent]
          exact ⟨_, os, rfl, MadeDirs.refl _ os, fun _ => rfl, fun h => absurd rfl h⟩
        · rw [if_neg (not_not_intro he), if_neg hparent, if_pos ⟨he, hparent⟩]
          obtain ⟨r, os₁, hrun, hmade, hsame, hgrown⟩ := run_createDirs_made parents os
          rw [hrun]
          cases r with
          | error err => exact ⟨_, os₁, rfl, hmade, hsame, hgrown⟩
          | ok u =>
            simp only
            cases hm₁ : os₁.mkdir p with
            | error e => exact ⟨_, os₁, rfl, hmade, hsame, hgrown⟩
            | ok os₂ =>
              obtain ⟨hmade₂, -⟩ := mkdir_made hm₁
              refine ⟨_, os₂, rfl, hmade.trans hmade₂, fun hnone => ?_, fun hsome => (hgrown hsome).made hmade₂⟩
              -- nothing was made above the path, so it is missing its parent as before
              rw [hsame hnone, hm] at hm₁
              cases hm₁
      · have hskip : ¬ (e = .notFound ∧ p.parent ≠ none) := fun h => he h.1
        rw [if_pos he, if_neg hskip]
        exact ⟨_, os, rfl, MadeDirs.refl _ os, fun _ => rfl, fun h => absurd rfl h⟩

/-- Where there is a directory, none is made. -/
theorem firstMade_of_isDirAt {os : Os} {p : Path} (h : os.isDirAt p = true) : os.firstMade p.ancestors = none := by
  have hentry : ∃ loc obj, os.resolve false p = .ok (.entry loc obj) := by
    unfold isDirAt at h
    split at h
    · rename_i loc mode hlookup
      exact resolve_entry (lookup_eq_ok hlookup).1
    · cases h
  obtain ⟨loc, obj, hresolve⟩ := hentry
  have hmkdir : os.mkdir p = .error .alreadyExists := by simp only [mkdir, hresolve]
  cases hparent : p.parent with
  | none =>
    rw [Path.ancestors_of_root hparent]
    split
    · rfl
    · simp only [firstMade, hmkdir]
      rfl
  | some q =>
    rw [Path.ancestors_of_parent hparent, firstMade, hmkdir]
    rfl

end Os

namespace Daemon

section

variable (env : FsEnv)

/-! ### Before the write, and the write -/

/-- What `handle_fs_write` does before it writes the file: the path, the content
and whether it is a change. -/
def fsWriteStart (request : FsWrite) : Act (Path × Bytes × Bool) := do
  let path ← .ofExcept (validateFsPath request.path)
  let bytes ← .ofExcept (decodeFsContent env request.content request.encoding)
  if bytes.length > maxAgentFsBytes then
    .fail (invalidRequest (str "write exceeds maximum payload of " ++ decimal maxAgentFsBytes ++ str " bytes"))
  else do
    createParentDir path request.createParent
    let changed ← fsWriteChecks env request path bytes
    pure (path, bytes, changed)

/-- The write itself. -/
def fsWriteFile (request : FsWrite) (path : Path) (bytes : Bytes) : Act Unit :=
  if request.atomic then writeAtomicFile env path bytes request.mode
  else writeDirectFile path bytes request.mode

/-- What it does from the write on. -/
def fsWriteRest (request : FsWrite) (path : Path) (bytes : Bytes) (changed : Bool) : Act AgentFsWriteResult := do
  fsWriteFile env request path bytes
  let mode ← finalMode path
  pure ⟨path.display, bytes.length, mode, some (env.sha256 bytes), changed⟩

theorem handleFsWrite_eq (request : FsWrite) :
    handleFsWrite env request = fsWriteStart env request >>= fun start =>
      fsWriteRest env request start.1 start.2.1 start.2.2 := by
  unfold handleFsWrite fsWriteStart
  rw [bind_assoc]
  congr 1
  funext path
  rw [bind_assoc]
  congr 1
  funext bytes
  split
  · rfl
  · rw [bind_assoc]
    congr 1
    funext u
    rw [bind_assoc]
    congr 1
    funext changed
    rw [Prog.pure_eq, Prog.pure_bind, fsWriteRest, fsWriteFile]
    split <;> rfl

/-! ### A refused write -/

/-- The directories `create_parent` asks for, innermost first. -/
def parentDirs (request : FsWrite) : List Path :=
  if request.createParent then (Path.ofStr request.path).parent.elim [] Path.ancestors else []

/-- The request gets as far as its parent directories: there is a path, and the
content decodes and is not too large. -/
def ReachesParent (request : FsWrite) : Prop :=
  request.path ≠ [] ∧ ∃ bytes, decodeFsContent env request.content request.encoding = .ok bytes ∧
    bytes.length ≤ maxAgentFsBytes

theorem run_createParentDir (request : FsWrite) (os : Os) :
    ∃ r os', run Os.step (createParentDir (.ofStr request.path) request.createParent) os = (r, os') ∧
      MadeDirs (fun _ => True) os os' ∧ (os.firstMade (parentDirs request) = none → os' = os) ∧
        (os.firstMade (parentDirs request) ≠ none → Grown os os') := by
  have hskip : ∀ {act : Act Unit}, act = .pure () → os.firstMade (parentDirs request) = none →
      ∃ r os', run Os.step act os = (r, os') ∧ MadeDirs (fun _ => True) os os' ∧
        (os.firstMade (parentDirs request) = none → os' = os) ∧
          (os.firstMade (parentDirs request) ≠ none → Grown os os') := by
    rintro _ rfl hnone
    exact ⟨.ok (), os, rfl, MadeDirs.refl _ os, fun _ => rfl, fun h => absurd hnone h⟩
  unfold createParentDir
  cases hparent : (Path.ofStr request.path).parent with
  | none =>
    refine hskip rfl ?_
    rw [parentDirs, hparent]
    split <;> rfl
  | some parent =>
    by_cases hcreate : (!parent.isEmpty && request.createParent) = true
    · have hdirs : parentDirs request = parent.ancestors := by
        rw [parentDirs, hparent, if_pos (Bool.and_eq_true_iff.mp hcreate).2]
        rfl
      simp only [hcreate, ↓reduceIte]
      obtain ⟨r, os', hrun, hmade, hsame, hgrown⟩ := run_createDirs_made parent.ancestors os
      rw [hdirs, Act.createDirAll, run_bind, hrun]
      cases r with
      | ok u => exact ⟨_, os', rfl, hmade, hsame, hgrown⟩
      | error err => exact ⟨_, os', rfl, hmade, hsame, hgrown⟩
    · refine hskip (if_neg hcreate) ?_
      rw [parentDirs, hparent]
      by_cases hasked : request.createParent = true
      · have hempty : parent.isEmpty = true := by simpa [hasked] using hcreate
        rw [if_pos hasked, Option.elim_some, Path.ancestors_of_root (Path.parent_of_isEmpty hempty), hempty]
        rfl
      · rw [if_neg hasked]
        rfl

variable {env}

/-- Refused before it looks at its parent. -/
theorem run_fsWriteStart_of_not_reaches {request : FsWrite} (h : ¬ ReachesParent env request) (os : Os) :
    (run Os.step (fsWriteStart env request) os).2 = os := by
  unfold fsWriteStart
  rw [run_bind, run_ofExcept]
  cases hpath : validateFsPath request.path with
  | error err => rfl
  | ok path =>
    simp only
    rw [run_bind, run_ofExcept]
    cases hbytes : decodeFsContent env request.content request.encoding with
    | error err => rfl
    | ok bytes =>
      simp only
      split
      · rfl
      · rename_i hsize
        refine absurd ⟨fun hnil => ?_, bytes, hbytes, Nat.le_of_not_lt hsize⟩ h
        rw [validateFsPath, if_pos hnil] at hpath
        cases hpath

/-- Otherwise it looks at what is there, once its parent is. -/
theorem run_fsWriteStart {request : FsWrite} {bytes : Bytes} (hpath : request.path ≠ [])
    (hbytes : decodeFsContent env request.content request.encoding = .ok bytes)
    (hsize : bytes.length ≤ maxAgentFsBytes) (os : Os) :
    run Os.step (fsWriteStart env request) os =
      run Os.step (createParentDir (.ofStr request.path) request.createParent >>= fun _ =>
        fsWriteChecks env request (.ofStr request.path) bytes >>= fun changed =>
          .pure (.ofStr request.path, bytes, changed)) os := by
  have hvalid : validateFsPath request.path = .ok (.ofStr request.path) := if_neg hpath
  unfold fsWriteStart
  rw [run_bind, run_ofExcept, hvalid]
  simp only
  rw [run_bind, run_ofExcept, hbytes]
  simp only
  rw [if_neg (Nat.not_lt.mpr hsize)]
  rfl

variable (env)

/-- **A refused write changes nothing, but for the parent directories it makes.**
For every request and every state, if `fs.write` fails before it starts to write
the file, for whatever reason: the filesystem is as it was if and only if the
request was refused before it got to its parent, or there was no directory
`create_parent` could make. -/
theorem refused_write_changes_nothing_iff (request : FsWrite) {os os' : Os} {err : AnyhowError}
    (h : run Os.step (fsWriteStart env request) os = (.error err, os')) :
    run Os.step (handleFsWrite env request) os = (.error err, os') ∧
      (SameTree os os' ↔ (ReachesParent env request → os.firstMade (parentDirs request) = none)) := by
  refine ⟨by rw [handleFsWrite_eq, run_bind, h], ?_⟩
  by_cases hreaches : ReachesParent env request
  · obtain ⟨hpath, bytes, hbytes, hsize⟩ := hreaches
    obtain ⟨r, os₁, hrun, hmade, hsame, hgrown⟩ := run_createParentDir request os
    have hafter : SameTree os₁ os' := by
      rw [run_fsWriteStart hpath hbytes hsize, run_bind, hrun] at h
      cases r with
      | error err => exact (Prod.mk.inj h).2 ▸ SameTree.refl os₁
      | ok u =>
        have hlook := run_readsOnly (fsWriteChecks_readsOnly env request (.ofStr request.path) bytes) os₁
        simp only at h
        rw [run_bind] at h
        rcases hchecks : run Os.step (fsWriteChecks env request (.ofStr request.path) bytes) os₁ with ⟨result, os₂⟩
        rw [hchecks] at h hlook
        cases result with
        | error err => exact (Prod.mk.inj h).2 ▸ hlook
        | ok changed => cases h
    have hiff : SameTree os os' ↔ os.firstMade (parentDirs request) = none := by
      constructor
      · intro hall
        by_contra hmakes
        obtain ⟨l, hnone, hsome⟩ := hgrown hmakes
        rw [← hafter.view, hall.view] at hsome
        exact hsome hnone
      · intro hnone
        exact hsame hnone ▸ hafter
    exact hiff.trans ⟨fun hnone _ => hnone, fun hnone => hnone ⟨hpath, bytes, hbytes, hsize⟩⟩
  · have hos := run_fsWriteStart_of_not_reaches hreaches os
    rw [h] at hos
    have hsame : SameTree os os' := hos ▸ SameTree.refl os
    exact iff_of_true hsame fun h => absurd h hreaches

end

/-! ### A guard on a file in a directory that is not there -/

/-- Every content has the same digest. -/
def blindEnv : FsEnv where
  sha256 _ := str "0"
  base64 := ⟨id, .ok⟩
  nonce := 0
  reads := 2
  depth := 2
  mtimeUnixMs _ := none

/-- A write of `x` to `/a/b`, where the file is to have a digest. -/
def guardedWrite (createParent : Bool) : FsWrite :=
  ⟨str "/a/b", str "x", .utf8, none, createParent, false, false, some (str "0")⟩

/-- The write is refused, and there is a directory more. -/
theorem refused_write_makes_parent :
    (run Os.step (handleFsWrite blindEnv (guardedWrite true)) .fresh).1 =
        .error (preconditionFailed (str "path does not exist: /a/b")) ∧
      ¬ SameTree .fresh (run Os.step (handleFsWrite blindEnv (guardedWrite true)) .fresh).2 := by
  refine ⟨by decide +kernel, fun hsame => ?_⟩
  have hview := hsame.view [⟨str "a", by decide⟩]
  revert hview
  decide +kernel

theorem refused_write_changes_nothing_guarded :
    run Os.step (handleFsWrite blindEnv (guardedWrite false)) .fresh =
        (.error (preconditionFailed (str "path does not exist: /a/b")), .fresh) ∧
      (SameTree .fresh .fresh ↔ (ReachesParent blindEnv (guardedWrite false) →
        Os.fresh.firstMade (parentDirs (guardedWrite false)) = none)) :=
  refused_write_changes_nothing_iff blindEnv (guardedWrite false) (by rfl)

end Daemon

end Rsdb
