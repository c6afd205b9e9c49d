/-
# A file under `fs.write` and `fs.read`

A file that is written and read through the daemon is a register with compare-and-swap:
`if_missing` and `if_sha256` compare, a write that succeeds swaps, one that is refused
leaves what is there, and a read gives what the last write that succeeded has left. Every
run of requests about one path refines such a register (`file_is_register`). A write that
fails behind an opened file is not in these runs: a direct one may leave a part of its
bytes, and an atomic one what `atomic_write_fails_cleanly_iff` says.
-/
import Rsdb.Lib.Simulation
import Rsdb.Daemon.FsWritten
import Rsdb.Daemon.FsRead

namespace Rsdb

open Prog (run run_bind run_bind_ok run_ask All)
open Os

namespace Daemon

/-! ### Requests about one file -/

/-- A request, with how it has ended; a `look` is any query, about any path. -/
inductive FileEvent where
  | write (request : FsWrite) (outcome : Except AnyhowError AgentFsWriteResult)
  | read (encoding : ContentEncoding) (maxBytes : Option ℕ) (outcome : Except AnyhowError AgentFsReadResult)
  | look (request : ControlRequest)

section

variable (env : FsEnv) (path : Str)

/-- A write is refused before it has a file to write to: by what is checked first, or, a
direct one, by the call that opens the file. -/
def WriteRefused (request : FsWrite) (err : AnyhowError) (s : Os) : Prop :=
  (run Os.step (fsWriteStart env request) s).1 = .error err ∨
    request.atomic = false ∧ ∃ start t e, run Os.step (fsWriteStart env request) s = (.ok start, t) ∧
      t.openWrite start.1 (openMode request.mode) = .error e

/-- What the daemon does. No directories are made, and a write that fails is refused. -/
def FileEvent.Happens : FileEvent → Os → Os → Prop
  | write request outcome, s, t => request.path = path ∧ request.createParent = false ∧
      run Os.step (handleFsWrite env request) s = (outcome, t) ∧ ∀ err, outcome = .error err → WriteRefused env request err s
  | read encoding maxBytes outcome, s, t => run Os.step (handleFsRead env path encoding maxBytes) s = (outcome, t)
  | look request, s, t => IsQuery request ∧ ∃ operation, fsOperation env request = some operation ∧
      t = (run Os.step operation s).2

/-- What a register does: its value is the content of the file, if there is one. -/
def FileEvent.Registers : FileEvent → Option Bytes → Option Bytes → Prop
  | write request (.ok _), v, w => ∃ bytes, decodeFsContent env request.content request.encoding = .ok bytes ∧
      (request.ifMissing = true → v = none) ∧
        (∀ digest, request.ifSha256 = some digest → ∃ content, v = some content ∧ env.sha256 content = digest) ∧
          w = some bytes
  | read encoding maxBytes (.ok result), v, w => w = v ∧
      ∃ content, v = some content ∧ readResult env (.ofStr path) encoding (readLimit maxBytes) content = .ok result
  | write _ (.error _), v, w | read _ _ (.error _), v, w | look _, v, w => w = v

end

/-! ### A write -/

section

variable {env : FsEnv} {request : FsWrite} {os os' : Os}

theorem AbsentOrFile.sameTree {path : Path} (h : AbsentOrFile os path) (hsame : SameTree os os') : AbsentOrFile os' path := by
  unfold AbsentOrFile
  rw [hsame.lookup]
  exact h

theorem fileContent_sameTree (hsame : SameTree os os') (path : Path) : os'.fileContent path = os.fileContent path := by
  rw [fileContent, fileContent, hsame.lookup]

theorem absentOrFile_of_content {path : Path} {content : Bytes} (h : os.fileContent path = some content) :
    AbsentOrFile os path := by
  obtain ⟨l, m, hfile⟩ := fileContent_eq_some.mp h
  exact Or.inr ⟨l, m, content, hfile⟩

/-- Without directories to make, nothing is changed before the write. -/
theorem fsWriteStart_readsOnly (hparent : request.createParent = false) :
    All Call.ReadsOnly (fsWriteStart env request) := by
  refine Prog.all_bind.mpr ⟨Prog.all_ofExcept _, fun path _ => ?_⟩
  refine Prog.all_bind.mpr ⟨Prog.all_ofExcept _, fun bytes _ => ?_⟩
  split
  · trivial
  · rw [hparent, createParentDir_false]
    have hchecks := fsWriteChecks_readsOnly env request path bytes
    exact Prog.all_bind.mpr ⟨trivial, fun _ _ => Prog.all_bind.mpr ⟨hchecks, fun _ _ => trivial⟩⟩

/-- A write that is refused leaves what is there. -/
theorem sameTree_of_refused (hparent : request.createParent = false) {err : AnyhowError}
    (h : run Os.step (handleFsWrite env request) os = (.error err, os')) (hrefused : WriteRefused env request err os) :
    SameTree os os' := by
  have hlooks := run_readsOnly (@fsWriteStart_readsOnly env _ hparent) os
  rw [handleFsWrite_eq, run_bind] at h
  rcases hstart : run Os.step (fsWriteStart env request) os with ⟨result, os₁⟩
  rw [WriteRefused, hstart] at hrefused
  rw [hstart] at h hlooks
  rcases hrefused with hfailed | ⟨hdirect, start, t, e, hstarted, hopen⟩
  · obtain rfl : result = .error err := hfailed
    obtain ⟨-, rfl⟩ := Prod.mk.inj h
    exact hlooks
  · obtain ⟨rfl, rfl⟩ := Prod.mk.inj hstarted
    have hstep : Os.step (.openWrite start.1 (openMode request.mode)) os₁ =
        os₁.answer (os₁.openWrite start.1 (openMode request.mode)) := rfl
    dsimp only at h
    rw [fsWriteRest, run_bind, fsWriteFile, hdirect, if_neg Bool.false_ne_true, writeDirectFile, run_bind, Act.openWrite,
      run_ask, hstep, hopen] at h
    obtain ⟨-, rfl⟩ := Prod.mk.inj h
    exact hlooks

/-- A write that succeeds has found what it was guarded by, and leaves its bytes. -/
theorem registers_of_write (hparent : request.createParent = false) (hpath : AbsentOrFile os (.ofStr request.path))
    {result : AgentFsWriteResult} (h : run Os.step (handleFsWrite env request) os = (.ok result, os')) :
    ∃ bytes, decodeFsContent env request.content request.encoding = .ok bytes ∧
      (request.ifMissing = true → os.fileContent (.ofStr request.path) = none) ∧
        (∀ digest, request.ifSha256 = some digest →
          ∃ content, os.fileContent (.ofStr request.path) = some content ∧ env.sha256 content = digest) ∧
          os'.fileContent (.ofStr request.path) = some bytes := by
  obtain ⟨bytes, changed, os₁, os₂, hbytes, hmade, hchecks, hrest⟩ := handleFsWrite_ok h
  rw [hparent, run_createParentDir_false] at hmade
  obtain ⟨-, rfl⟩ := Prod.mk.inj hmade
  obtain ⟨existing, -, hexisting, -, hmissing, -⟩ := fsWriteChecks_ok hchecks
  have hlooks := run_readsOnly (fsWriteChecks_readsOnly env request (.ofStr request.path) bytes) os
  rw [hchecks] at hlooks
  refine ⟨bytes, hbytes, fun hasked => ?_, fun digest hasked => handleFsWrite_guarded hasked hparent h,
    (fsWriteRest_ok (hpath.sameTree hlooks) hrest).1⟩
  rcases existing_of_absentOrFile hpath hexisting with ⟨-, hnone⟩ | ⟨m, content, hsome, -⟩
  · exact hnone
  · rw [hmissing hasked] at hsome
    cases hsome

end

/-! ### The register -/

section

variable {env : FsEnv} {path : Str} {os os' : Os}

/-- A read that succeeds is of the content. -/
theorem registers_of_read {encoding : ContentEncoding} {maxBytes : Option ℕ} {result : AgentFsReadResult}
    (hpath : AbsentOrFile os (.ofStr path))
    (h : run Os.step (handleFsRead env path encoding maxBytes) os = (.ok result, os')) :
    ∃ content, os.fileContent (.ofStr path) = some content ∧
      readResult env (.ofStr path) encoding (readLimit maxBytes) content = .ok result := by
  rcases hpath with habsent | ⟨l, m, content, hfile⟩
  · obtain ⟨requested, s, hvalid, hrest⟩ := (run_bind_ok _).mp h
    rw [Prog.run_ofExcept] at hvalid
    obtain ⟨hrequested, rfl⟩ := Prod.mk.inj hvalid
    obtain rfl := validateFsPath_eq_ok hrequested
    rw [run_bind, Act.lstat, run_ask, Os.step_lstat, habsent] at hrest
    cases hrest
  · obtain ⟨t, hrun⟩ := @run_handleFsRead env path os l m content hfile encoding maxBytes
    have hresult := (Prod.mk.inj (hrun.symm.trans h)).1
    split at hresult
    · exact ⟨content, fileContent_eq_some.mpr ⟨l, m, hfile⟩, hresult⟩
    · cases hresult

/-- One request. -/
theorem FileEvent.Happens.registers {event : FileEvent} (h : event.Happens env path os os')
    (hpath : AbsentOrFile os (.ofStr path)) :
    AbsentOrFile os' (.ofStr path) ∧
      event.Registers env path (os.fileContent (.ofStr path)) (os'.fileContent (.ofStr path)) := by
  have hkept : SameTree os os' →
      AbsentOrFile os' (.ofStr path) ∧ os'.fileContent (.ofStr path) = os.fileContent (.ofStr path) :=
    fun hsame => ⟨hpath.sameTree hsame, fileContent_sameTree hsame _⟩
  match event, h with
  | .write request (.ok result), ⟨hrequest, hparent, hrun, _⟩ =>
    subst hrequest
    obtain ⟨bytes, hbytes, hmissing, hguard, hcontent⟩ := registers_of_write hparent hpath hrun
    exact ⟨absentOrFile_of_content hcontent, bytes, hbytes, hmissing, hguard, hcontent⟩
  | .write request (.error err), ⟨_, hparent, hrun, hrefused⟩ =>
    exact hkept (sameTree_of_refused hparent hrun (hrefused err rfl))
  | .read encoding maxBytes outcome, hrun =>
    have hlooks := run_readsOnly (handleFsRead_readsOnly env path encoding maxBytes) os
    rw [show run Os.step (handleFsRead env path encoding maxBytes) os = (outcome, os') from hrun] at hlooks
    obtain ⟨hstill, hsame⟩ := hkept hlooks
    cases outcome with
    | error err => exact ⟨hstill, hsame⟩
    | ok result => exact ⟨hstill, hsame, registers_of_read hpath hrun⟩
  | .look request, ⟨hquery, operation, hknown, hafter⟩ =>
    subst hafter
    exact hkept (fsOperation_query hquery hknown os)

end

/-- **A file is a register with compare-and-swap.** Every run of requests about a path at
which there is nothing or a regular file, in any number and order and with any flags but
`create_parent`, in which a write that fails is refused, refines a register: a write that
succeeds has found what its guards ask for and leaves its bytes, one that is refused leaves
what is there, as do reads and looks, and a read that succeeds gives what is there then. -/
theorem file_is_register (env : FsEnv) (path : Str) {events : List FileEvent} {os os' : Os}
    (hpath : AbsentOrFile os (.ofStr path)) (h : Steps (FileEvent.Happens env path) events os os') :
    AbsentOrFile os' (.ofStr path) ∧
      Steps (FileEvent.Registers env path) events (os.fileContent (.ofStr path)) (os'.fileContent (.ofStr path)) :=
  @Steps.refines _ _ _ _ (FileEvent.Registers env path) _ _ _ (fun s => AbsentOrFile s (.ofStr path))
    (fun s => s.fileContent (.ofStr path)) (fun _ _ _ hs ht => ht.registers hs) h hpath

/-- A guarded write, and a read after it. -/
def swapWrite : FsWrite := ⟨str "/b", str "y", .utf8, none, false, false, false, some (str "x")⟩

/-- A write, and a read of what it wrote. -/
def swapEvents : List FileEvent :=
  [.write swapWrite (.ok ⟨str "/b", 1, some 0o644, some (str "y"), true⟩),
    .read .utf8 none (.ok ⟨str "/b", .utf8, str "y", 1, false⟩)]

/-- The state after the write. -/
@[irreducible] def afterSwap : Os := (run Os.step (handleFsWrite plainEnv swapWrite) bFileOs).2

/-- The state after the read. -/
@[irreducible] def afterSwapRead : Os := (run Os.step (handleFsRead plainEnv (str "/b") .utf8 none) afterSwap).2

theorem swap_happens : Steps (FileEvent.Happens plainEnv (str "/b")) swapEvents bFileOs afterSwapRead := by
  have hwrite : run Os.step (handleFsWrite plainEnv swapWrite) bFileOs =
      (.ok ⟨str "/b", 1, some 0o644, some (str "y"), true⟩, afterSwap) := by
    unfold afterSwap
    exact Prog.outcome_of_ok (by decide +kernel)
  have hread : run Os.step (handleFsRead plainEnv (str "/b") .utf8 none) afterSwap =
      (.ok ⟨str "/b", .utf8, str "y", 1, false⟩, afterSwapRead) := by
    unfold afterSwapRead
    exact Prog.outcome_of_ok (by unfold afterSwap; decide +kernel)
  exact .cons ⟨rfl, rfl, hwrite, nofun⟩ (.cons hread (.nil _))

theorem file_is_register_swap : AbsentOrFile afterSwapRead (.ofStr (str "/b")) ∧
    Steps (FileEvent.Registers plainEnv (str "/b")) swapEvents (bFileOs.fileContent (.ofStr (str "/b")))
      (afterSwapRead.fileContent (.ofStr (str "/b"))) :=
  file_is_register plainEnv (str "/b") (@absentOrFile_of_content bFileOs _ (str "x") (by decide +kernel)) swap_happens

end Daemon

end Rsdb
