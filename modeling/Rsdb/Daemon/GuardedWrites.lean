/-
# Guarded writes of two connections

Each connection has a task of its own, so the calls of two `fs.write` on one path come
in any order of their steps. A guard is decided by one call, `if_missing` by the look
at the path (`lstat`) and `if_sha256` by opening the file that is then read, and later
calls rely on it. Nothing keeps the other request away in between: two requests can
both find what they ask for, and then both write (`guarded_writes_lost`).

A request that makes all its calls from the one that decides its guard on before the
other one goes on keeps it. If both do, at most one of them succeeds, and the file is
its content (`guarded_writes_lose_nothing`). Before that call a request makes parents
and may have looked at the file, and what it has seen of it is still so (`Undecided`).
-/
import Rsdb.Lib.Exclusion
import Rsdb.Daemon.FsWritten

namespace Rsdb

open Prog (run run_call run_bind run_bind_ok run_ofExcept All all_bind Together Exclusive together_exclusive interleave
  together_of_interleave Apart Side)
open Os

namespace Os

/-- Making directories leaves what a path names. -/
theorem step_makesDirs {c : Call} (hc : c.MakesDirs) {os : Os} {p : Path} {l : Loc} {obj : Obj}
    (h : os.lookup false p = .ok (l, obj)) : (os.step c).2.lookup false p = .ok (l, obj) := by
  cases c with
  | stat q => rwa [step_stat]
  | mkdir q =>
    show (os.done (os.mkdir q)).2.lookup false p = _
    cases hmkdir : os.mkdir q with
    | error e => exact h
    | ok os' => exact (mkdir_made hmkdir).1.lookup_ok h
  | _ => exact hc.elim

theorem run_makesDirs {ε α : Type} {p : Path} {l : Loc} {obj : Obj} : ∀ {x : Prog Call Call.Answer ε α} {os : Os},
    All Call.MakesDirs x → os.lookup false p = .ok (l, obj) → (run step x os).2.lookup false p = .ok (l, obj)
  | .pure _, _, _, h => h
  | .fail _, _, _, h => h
  | .call c k, os, hall, h => run_makesDirs (x := k (step c os).1) (hall.2 _) (step_makesDirs hall.1 h)

end Os

namespace Daemon

variable {env : FsEnv}

theorem makesDirs_createParentDir (path : Path) (createParent : Bool) :
    All Call.MakesDirs (createParentDir path createParent) := by
  unfold createParentDir
  cases path.parent with
  | none => trivial
  | some parent =>
    show All Call.MakesDirs (if _ then _ else _)
    split
    · refine all_bind.mpr ⟨makesDirs_createDirs _, fun result _ => ?_⟩
      cases result <;> trivial
    · trivial

/-! ### What a guard says -/

/-- A request for a guard. -/
def FsWrite.Guarded (request : FsWrite) : Prop := request.ifMissing = true ∨ ∃ digest, request.ifSha256 = some digest

/-- A file with this content is not what the request asks for. -/
def FsWrite.Refuses (env : FsEnv) (request : FsWrite) (content : Bytes) : Prop :=
  request.ifMissing = true ∨ ∃ digest, request.ifSha256 = some digest ∧ env.sha256 content ≠ digest

/-- The content a request is to leave at its path. -/
def FsWrite.Leaves (env : FsEnv) (request : FsWrite) (os : Os) : Prop :=
  ∃ bytes, decodeFsContent env request.content request.encoding = .ok bytes ∧
    os.fileContent (.ofStr request.path) = some bytes

/-- The calls that decide a guard of the request: the look at its path, or the opening
of the file for its digest. -/
def FsWrite.Decides (request : FsWrite) : Call → Prop
  | .lstat _ => request.ifMissing = true
  | .openRead _ => request.ifSha256.isSome = true
  | _ => False

/-! ### From what is at the path on -/

/-- A write, from what is at its path on. -/
def fsWriteOn (env : FsEnv) (request : FsWrite) (path : Path) (bytes : Bytes) (existing : Option Metadata) :
    Act AgentFsWriteResult := do
  let changed ← fsWriteChecksOn env request path bytes existing
  fsWriteRest env request path bytes changed

/-- A request fails without a call, or makes its parent, looks, and goes on. -/
theorem handleFsWrite_cases (request : FsWrite) :
    (∃ err, handleFsWrite env request = .fail err) ∨
      ∃ bytes, decodeFsContent env request.content request.encoding = .ok bytes ∧
        handleFsWrite env request = (createParentDir (.ofStr request.path) request.createParent >>= fun _ =>
          existingMetadata (.ofStr request.path) >>= fsWriteOn env request (.ofStr request.path) bytes) := by
  unfold handleFsWrite
  cases hpath : validateFsPath request.path with
  | error err => exact Or.inl ⟨err, rfl⟩
  | ok path =>
    obtain rfl := validateFsPath_eq_ok hpath
    rw [Prog.ofExcept_ok, Prog.pure_bind]
    cases hbytes : decodeFsContent env request.content request.encoding with
    | error err => exact Or.inl ⟨err, rfl⟩
    | ok bytes =>
      rw [Prog.ofExcept_ok, Prog.pure_bind]
      by_cases hsize : bytes.length > maxAgentFsBytes
      · exact Or.inl ⟨_, if_pos hsize⟩
      · refine Or.inr ⟨bytes, rfl, ?_⟩
        rw [if_neg hsize]
        congr 1
        funext u
        rw [fsWriteChecks_eq, Prog.bind_assoc]
        congr 1
        funext existing
        unfold fsWriteOn
        congr 1
        funext changed
        rw [fsWriteRest, fsWriteFile]
        split <;> rfl

section

variable {request : FsWrite} {path : Path} {bytes : Bytes} {existing : Option Metadata} {os os' : Os}

/-- What the checks let through. -/
theorem fsWriteChecksOn_ok {changed : Bool}
    (h : run Os.step (fsWriteChecksOn env request path bytes existing) os = (.ok changed, os')) :
    SameTree os os' ∧ (request.ifMissing = true → existing = none) ∧
      ∀ digest, request.ifSha256 = some digest → existing.any Metadata.isFile = true ∧
        ∃ l mode content, os.lookup true path = .ok (l, .inl (.file mode content)) ∧ env.sha256 content = digest := by
  have hlooks : SameTree os os' := by
    have hreads := run_readsOnly (fsWriteChecksOn_readsOnly env request path bytes existing) os
    rwa [h] at hreads
  obtain ⟨-, hmissing, previous, os₁, hcheck, -⟩ := fsWriteChecksOn_stages h
  refine ⟨hlooks, hmissing, fun digest hasked => ?_⟩
  rw [hasked] at hcheck
  exact (checkSha256_found hcheck).2

/-- Where nothing or a regular file is at the path, a write that succeeds leaves its
bytes there. -/
theorem fsWriteOn_leaves {result : AgentFsWriteResult} (hpath : AbsentOrFile os path)
    (h : run Os.step (fsWriteOn env request path bytes existing) os = (.ok result, os')) :
    os'.fileContent path = some bytes := by
  obtain ⟨changed, os₁, hchecks, hrest⟩ := (run_bind_ok Os.step).mp h
  have hlooks := (fsWriteChecksOn_ok hchecks).1
  refine (fsWriteRest_ok ?_ hrest).1
  unfold AbsentOrFile at hpath ⊢
  rwa [hlooks.lookup]

/-- With a content it refuses at its path, a request that has seen something there fails. -/
theorem fsWriteOn_refused {metadata : Metadata} {content : Bytes} (hcontent : os.fileContent path = some content)
    (hrefuses : request.Refuses env content) :
    ∃ err os', run Os.step (fsWriteOn env request path bytes (some metadata)) os = (.error err, os') ∧
      os'.fileContent path = some content := by
  rcases hchecks : run Os.step (fsWriteChecksOn env request path bytes (some metadata)) os with ⟨err | changed, os₁⟩
  · have hlooks := run_readsOnly (fsWriteChecksOn_readsOnly env request path bytes (some metadata)) os
    rw [hchecks] at hlooks
    refine ⟨err, os₁, ?_, ?_⟩
    · rw [fsWriteOn, run_bind, hchecks]
    · rwa [fileContent, hlooks.lookup]
  · obtain ⟨-, hmissing, hfound⟩ := fsWriteChecksOn_ok hchecks
    rcases hrefuses with hasked | ⟨digest, hasked, hne⟩
    · cases hmissing hasked
    · obtain ⟨-, l, mode, content', hfollow, hdigest⟩ := hfound digest hasked
      obtain ⟨l', mode', hlookup⟩ := fileContent_eq_some.mp hcontent
      rw [lookup_of_file hlookup] at hfollow
      cases hfollow
      exact absurd hdigest hne

/-- A write that fails has put nothing else at a path with a file. -/
theorem fsWriteOn_failed {err : AnyhowError} {l : Loc} {mode : ℕ} {content : Bytes}
    (hfile : os.lookup false path = .ok (l, .inl (.file mode content)))
    (h : run Os.step (fsWriteOn env request path bytes existing) os = (.error err, os')) {found : Loc × Obj}
    (hfound : os'.lookup false path = .ok found) : found = (l, .inl (.file mode content)) := by
  have hback : ∀ {os₁ : Os}, SameTree os os₁ → Less os₁ os' → found = (l, .inl (.file mode content)) := by
    intro os₁ hlooks hless
    have hthere := hless.lookup_ok hfound
    rw [hlooks.lookup, hfile] at hthere
    exact (Except.ok.inj hthere).symm
  rw [fsWriteOn, run_bind] at h
  have hlooks := run_readsOnly (fsWriteChecksOn_readsOnly env request path bytes existing) os
  rcases hchecks : run Os.step (fsWriteChecksOn env request path bytes existing) os with ⟨err' | changed, os₁⟩
  · rw [hchecks] at h hlooks
    obtain ⟨-, rfl⟩ := Prod.mk.inj h
    exact hback hlooks (SameTree.refl os₁).less
  · rw [hchecks] at h hlooks
    simp only at h hlooks
    rw [fsWriteRest, run_bind] at h
    rcases hwrite : run Os.step (fsWriteFile env request path bytes) os₁ with ⟨err' | u, os₂⟩
    · rw [hwrite] at h
      obtain ⟨-, rfl⟩ := Prod.mk.inj h
      refine hback hlooks ?_
      unfold fsWriteFile at hwrite
      split at hwrite
      · exact writeAtomicFile_failed hwrite
      · have hpath : AbsentOrFile os₁ path := Or.inr ⟨l, mode, content, (hlooks.lookup false path).trans hfile⟩
        rw [writeDirectFile_failed hpath hwrite]
        exact (SameTree.refl os₁).less
    · -- what comes after the write does not fail
      rw [hwrite] at h
      simp only [finalMode, Act.lstat, run_bind, Prog.run_ask, step_lstat] at h
      cases hlast : os₂.lookup false path <;> rw [hlast] at h <;> cases h

end

/-! ### Before the call that decides -/

/-- A guard of the request is decided by the calls that keep the other one out. -/
def FsWrite.DecidedBy (request : FsWrite) (look : Call → Prop) : Prop :=
  (∀ p, look (.lstat p)) ∨ request.ifSha256.isSome = true ∧ ∀ p, look (.openRead p)

/-- With a digest asked for, a write opens the file first, if it has seen one. -/
theorem fsWriteOn_cases {request : FsWrite} (hsha : request.ifSha256.isSome = true) (path : Path) (bytes : Bytes)
    (existing : Option Metadata) :
    (∃ err, fsWriteOn env request path bytes existing = .fail err) ∨
      existing.any Metadata.isFile = true ∧ ∃ k, fsWriteOn env request path bytes existing = .call (.openRead path) k := by
  obtain ⟨digest, hasked⟩ := Option.isSome_iff_exists.mp hsha
  unfold fsWriteOn fsWriteChecksOn
  split
  · exact Or.inl ⟨_, rfl⟩
  split
  · exact Or.inl ⟨_, rfl⟩
  · rw [hasked]
    cases existing with
    | none => exact Or.inl ⟨_, rfl⟩
    | some metadata =>
      cases hfile : metadata.isFile with
      | true =>
        refine Or.inr ⟨hfile, ?_⟩
        simp only [checkSha256, hfile, Bool.true_eq_false, if_false]
        exact ⟨_, rfl⟩
      | false =>
        simp only [checkSha256, hfile, if_true]
        exact Or.inl ⟨_, rfl⟩

/-- What is left of a request before a call that decides: it has failed, or it makes
parents before it looks, or it has seen a file that is still there. -/
inductive Undecided (env : FsEnv) (look : Call → Prop) (request : FsWrite) : Act AgentFsWriteResult → Os → Prop where
  | failed (err : AnyhowError) (os : Os) : Undecided env look request (.fail err) os
  | makes {p : Act Unit} {bytes : Bytes} (os : Os) (hp : All Call.MakesDirs p)
      (hbytes : decodeFsContent env request.content request.encoding = .ok bytes) :
      Undecided env look request
        (p >>= fun _ => existingMetadata (.ofStr request.path) >>= fsWriteOn env request (.ofStr request.path) bytes) os
  | seen {bytes : Bytes} {os : Os} {l : Loc} {mode : ℕ} {content : Bytes}
      (hbytes : decodeFsContent env request.content request.encoding = .ok bytes)
      (hsha : request.ifSha256.isSome = true) (hlook : ∀ p, look (.openRead p))
      (hfile : os.lookup false (.ofStr request.path) = .ok (l, .inl (.file mode content))) :
      Undecided env look request
        (fsWriteOn env request (.ofStr request.path) bytes (some ⟨.file, mode, content.length⟩)) os

/-- A file that is at the path is there, or nothing is. -/
def FileKept (os os' : Os) (path : Path) : Prop :=
  ∀ l mode content, os.lookup false path = .ok (l, .inl (.file mode content)) →
    ∀ found, os'.lookup false path = .ok found → found = (l, .inl (.file mode content))

theorem FileKept.refl (os : Os) (path : Path) : FileKept os os path := fun _ _ _ hfile _ hfound =>
  (Except.ok.inj (hfile.symm.trans hfound)).symm

/-- A request makes its parent first. -/
theorem undecided_handleFsWrite (look : Call → Prop) (request : FsWrite) (os : Os) :
    Undecided env look request (handleFsWrite env request) os := by
  rcases @handleFsWrite_cases env request with ⟨err, hfail⟩ | ⟨bytes, hbytes, heq⟩
  · rw [hfail]
    exact .failed err os
  · rw [heq]
    exact .makes os (makesDirs_createParentDir _ _) hbytes

namespace Undecided

variable {look : Call → Prop} {request : FsWrite} {z : Act AgentFsWriteResult} {os : Os}

/-- A call that does not decide makes directories or looks, and leaves a request so. -/
theorem step (hdecided : request.DecidedBy look) {c : Call} {k : c.Answer → Act AgentFsWriteResult}
    (h : Undecided env look request (.call c k) os) (hc : ¬ look c) :
    (c.MakesDirs ∨ ∃ p, c = .lstat p) ∧ Undecided env look request (k (os.step c).1) (os.step c).2 := by
  generalize hz : Prog.call c k = z at h
  cases h with
  | failed err => cases hz
  | @makes p bytes _ hp hbytes =>
    cases p with
    | fail err => cases hz
    | call c' next =>
      cases hz
      exact ⟨Or.inl hp.1, .makes _ (hp.2 _) hbytes⟩
    | pure u =>
      cases hz
      -- the look does not decide, so a digest does
      obtain ⟨hsha, hopen⟩ := hdecided.resolve_left fun hlook => hc (hlook _)
      refine ⟨Or.inr ⟨_, rfl⟩, ?_⟩
      rw [step_lstat]
      cases hlookup : os.lookup false (.ofStr request.path) with
      | ok found =>
        show Undecided env look request (fsWriteOn env request (.ofStr request.path) bytes
          (some (os.metadata found.1 found.2))) os
        rcases fsWriteOn_cases hsha (.ofStr request.path) bytes (some (os.metadata found.1 found.2)) with
          ⟨err, hfail⟩ | ⟨hfile, -⟩
        · rw [hfail]
          exact .failed err os
        · obtain ⟨l, obj⟩ := found
          obtain ⟨mode, content, rfl⟩ := Obj.of_isFile hfile
          exact .seen hbytes hsha hopen hlookup
      | error kind =>
        show Undecided env look request ((if kind.toError.kind = .notFound then (pure none : Act (Option Metadata))
          else .fail _) >>= fsWriteOn env request (.ofStr request.path) bytes) os
        split
        · rcases fsWriteOn_cases hsha (.ofStr request.path) bytes none with ⟨err, hfail⟩ | ⟨hfile, -⟩
          · show Undecided env look request (fsWriteOn env request (.ofStr request.path) bytes none) os
            rw [hfail]
            exact .failed err os
          · cases hfile
        · exact .failed _ os
  | seen hbytes hsha hlook hfile =>
    rcases fsWriteOn_cases hsha (.ofStr request.path) _ _ with ⟨err, hfail⟩ | ⟨-, k', hcall⟩
    · rw [hfail] at hz
      cases hz
    · rw [hcall] at hz
      cases hz
      exact absurd (hlook _) hc

/-- So do such calls of the other request. -/
theorem keeps {c : Call} (h : Undecided env look request z os) (hc : c.MakesDirs ∨ ∃ p, c = .lstat p) :
    Undecided env look request z (os.step c).2 := by
  cases h with
  | failed err => exact .failed err _
  | makes _ hp hbytes => exact .makes _ hp hbytes
  | @seen bytes _ l mode content hbytes hsha hlook hfile =>
    have hthere : (os.step c).2.lookup false (.ofStr request.path) = .ok (l, .inl (.file mode content)) := by
      rcases hc with hc | ⟨p, rfl⟩
      · exact step_makesDirs hc hfile
      · rwa [step_lstat]
    exact .seen hbytes hsha hlook hthere

/-- If it succeeds from a state in which no other thing is at its path than a file it
may have seen, it leaves its content. -/
theorem leaves (h : Undecided env look request z os) (hguarded : request.Guarded) {os₁ os' : Os}
    {result : AgentFsWriteResult} (hkept : FileKept os os₁ (.ofStr request.path))
    (hrun : run Os.step z os₁ = (.ok result, os')) : request.Leaves env os' := by
  cases h with
  | failed err => cases hrun
  | @makes p bytes _ hp hbytes =>
    obtain ⟨_, os₂, -, hrest⟩ := (run_bind_ok Os.step).mp hrun
    obtain ⟨existing, os₃, hexisting, hon⟩ := (run_bind_ok Os.step).mp hrest
    obtain ⟨rfl, hcase⟩ := existingMetadata_ok hexisting
    refine ⟨bytes, hbytes, fsWriteOn_leaves ?_ hon⟩
    obtain ⟨changed, os₄, hchecks, -⟩ := (run_bind_ok Os.step).mp hon
    obtain ⟨-, hmissing, hfound⟩ := fsWriteChecksOn_ok hchecks
    rcases hcase with ⟨-, habsent⟩ | ⟨l, obj, rfl, hlookup⟩
    · exact Or.inl habsent
    · rcases hguarded with hasked | ⟨digest, hasked⟩
      · cases hmissing hasked
      · obtain ⟨mode, content, rfl⟩ := Obj.of_isFile (hfound digest hasked).1
        exact Or.inr ⟨l, mode, content, hlookup⟩
  | @seen bytes _ l mode content hbytes hsha hlook hfile =>
    refine ⟨bytes, hbytes, fsWriteOn_leaves ?_ hrun⟩
    obtain ⟨changed, os₂, hchecks, -⟩ := (run_bind_ok Os.step).mp hrun
    obtain ⟨digest, hasked⟩ := Option.isSome_iff_exists.mp hsha
    obtain ⟨-, l', mode', content', hfollow, -⟩ := (fsWriteChecksOn_ok hchecks).2.2 digest hasked
    obtain ⟨l'', obj, hlookup⟩ := lookup_entry hfollow
    obtain ⟨rfl, rfl⟩ := Prod.mk.inj (hkept l mode content hfile _ hlookup)
    exact Or.inr ⟨_, mode, content, hlookup⟩

/-- With a content it refuses at its path it fails, and leaves it. -/
theorem refused (h : Undecided env look request z os) {os₁ : Os} {content : Bytes}
    (hcontent : os₁.fileContent (.ofStr request.path) = some content) (hrefuses : request.Refuses env content) :
    ∃ err os', run Os.step z os₁ = (.error err, os') ∧ os'.fileContent (.ofStr request.path) = some content := by
  cases h with
  | failed err => exact ⟨err, os₁, rfl, hcontent⟩
  | @makes p bytes _ hp hbytes =>
    obtain ⟨l, mode, hlookup⟩ := fileContent_eq_some.mp hcontent
    have hmade := run_makesDirs hp hlookup
    rw [run_bind]
    rcases hrun : run Os.step p os₁ with ⟨err | u, os₂⟩
    · rw [hrun] at hmade
      exact ⟨err, os₂, rfl, fileContent_eq_some.mpr ⟨l, mode, hmade⟩⟩
    · rw [hrun] at hmade
      simp only [run_bind, run_existingMetadata, hmade]
      exact fsWriteOn_refused (fileContent_eq_some.mpr ⟨l, mode, hmade⟩) hrefuses
  | seen => exact fsWriteOn_refused hcontent hrefuses

/-- If it fails, it has put nothing else at its path than the file that was there. -/
theorem fileKept (h : Undecided env look request z os) {os₁ : Os} {err : AnyhowError}
    (hrun : run Os.step z os = (.error err, os₁)) : FileKept os os₁ (.ofStr request.path) := by
  intro l mode content hfile found hfound
  cases h with
  | failed err =>
    obtain ⟨-, rfl⟩ := Prod.mk.inj hrun
    exact FileKept.refl _ _ l mode content hfile found hfound
  | @makes p bytes _ hp hbytes =>
    have hmade := run_makesDirs hp hfile
    rw [run_bind] at hrun
    rcases hdirs : run Os.step p os with ⟨err' | u, os₂⟩
    · rw [hdirs] at hrun hmade
      obtain ⟨-, rfl⟩ := Prod.mk.inj hrun
      exact FileKept.refl _ _ l mode content hmade found hfound
    · rw [hdirs] at hrun hmade
      simp only [run_bind, run_existingMetadata, hmade] at hrun
      exact fsWriteOn_failed hmade hrun hfound
  | seen => exact fsWriteOn_failed hfile hrun hfound

end Undecided

/-! ### Two requests -/

/-- The daemon's environment when a request comes. -/
def FsEnv.atNonce (env : FsEnv) (nonce : ℕ) : FsEnv := { env with nonce := nonce }

/-- The content of the request has another digest. -/
def FsWrite.Changes (env : FsEnv) (request : FsWrite) (digest : Str) : Prop :=
  ∀ bytes, decodeFsContent env request.content request.encoding = .ok bytes → env.sha256 bytes ≠ digest

/-- Two requests for the same guard, each with a content that breaks it for the
other. -/
def Conflicting (env : FsEnv) (r₁ r₂ : FsWrite) : Prop :=
  (r₁.ifMissing = true ∧ r₂.ifMissing = true) ∨
    ∃ digest, (r₁.ifSha256 = some digest ∧ r₁.Changes env digest) ∧ (r₂.ifSha256 = some digest ∧ r₂.Changes env digest)

/-- At most one of the requests succeeds, and the file is the content of the one that does. -/
structure NoUpdateLost (env : FsEnv) (r₁ r₂ : FsWrite) (out₁ out₂ : Except AnyhowError AgentFsWriteResult) (os' : Os) :
    Prop where
  atMostOne : ¬ (out₁.isOk = true ∧ out₂.isOk = true)
  first : out₁.isOk = true → r₁.Leaves env os'
  second : out₂.isOk = true → r₂.Leaves env os'

theorem NoUpdateLost.symm {r₁ r₂ : FsWrite} {out₁ out₂ : Except AnyhowError AgentFsWriteResult} {os' : Os}
    (h : NoUpdateLost env r₁ r₂ out₁ out₂ os') : NoUpdateLost env r₂ r₁ out₂ out₁ os' :=
  ⟨fun hboth => h.atMostOne hboth.symm, h.second, h.first⟩

namespace Conflicting

variable {r₁ r₂ : FsWrite} (h : Conflicting env r₁ r₂)

include h

theorem symm : Conflicting env r₂ r₁ := by
  rcases h with hmissing | ⟨digest, h₁, h₂⟩
  · exact Or.inl hmissing.symm
  · exact Or.inr ⟨digest, h₂, h₁⟩

theorem guarded : r₁.Guarded ∧ r₂.Guarded := by
  rcases h with ⟨h₁, h₂⟩ | ⟨digest, ⟨h₁, -⟩, h₂, -⟩
  · exact ⟨Or.inl h₁, Or.inl h₂⟩
  · exact ⟨Or.inr ⟨digest, h₁⟩, Or.inr ⟨digest, h₂⟩⟩

/-- The guard both carry decides. -/
theorem decided : r₁.DecidedBy (fun c => r₁.Decides c ∧ r₂.Decides c) ∧
    r₂.DecidedBy fun c => r₁.Decides c ∧ r₂.Decides c := by
  rcases h with hmissing | ⟨digest, ⟨h₁, -⟩, h₂, -⟩
  · exact ⟨Or.inl fun _ => hmissing, Or.inl fun _ => hmissing⟩
  · have hsome₁ : r₁.ifSha256.isSome = true := by rw [h₁, Option.isSome_some]
    have hsome₂ : r₂.ifSha256.isSome = true := by rw [h₂, Option.isSome_some]
    exact ⟨Or.inr ⟨hsome₁, fun _ => ⟨hsome₁, hsome₂⟩⟩, Or.inr ⟨hsome₂, fun _ => ⟨hsome₁, hsome₂⟩⟩⟩

/-- What the one leaves the other refuses. -/
theorem refuses {bytes : Bytes} (hbytes : decodeFsContent env r₁.content r₁.encoding = .ok bytes) :
    r₂.Refuses env bytes := by
  rcases h with ⟨-, hmissing⟩ | ⟨digest, ⟨-, hchanges⟩, hasked, -⟩
  · exact Or.inl hmissing
  · exact Or.inr ⟨digest, hasked, hchanges bytes hbytes⟩

end Conflicting

/-- One request to its end, and then the other. -/
theorem noUpdateLost_of_runs {nonce₁ nonce₂ : ℕ} {r₁ r₂ : FsWrite} (hpath : r₁.path = r₂.path)
    (hguards : Conflicting env r₁ r₂) {look : Call → Prop} {x y : Act AgentFsWriteResult} {os os₁ os' : Os}
    (hx : Undecided (env.atNonce nonce₁) look r₁ x os) (hy : Undecided (env.atNonce nonce₂) look r₂ y os)
    {out₁ out₂ : Except AnyhowError AgentFsWriteResult} (hfirst : run Os.step x os = (out₁, os₁))
    (hsecond : run Os.step y os₁ = (out₂, os')) : NoUpdateLost env r₁ r₂ out₁ out₂ os' := by
  cases out₁ with
  | ok result =>
    obtain ⟨bytes, hbytes, hcontent⟩ := hx.leaves hguards.guarded.1 (.refl _ _) hfirst
    rw [hpath] at hcontent
    obtain ⟨err, os₂, hrun, hkept⟩ := hy.refused hcontent (hguards.refuses hbytes)
    obtain ⟨rfl, rfl⟩ := Prod.mk.inj (hrun.symm.trans hsecond)
    refine ⟨fun hboth => ?_, fun _ => ⟨bytes, hbytes, by rw [hpath]; exact hkept⟩, fun hok => ?_⟩
    · cases hboth.2
    · cases hok
  | error err =>
    refine ⟨fun hboth => ?_, fun hok => ?_, fun hok => ?_⟩
    · cases hboth.1
    · cases hok
    · cases out₂ with
      | error err => cases hok
      | ok result => exact hy.leaves hguards.guarded.2 (hpath ▸ hx.fileKept hfirst) hsecond

/-- **Guarded writes that keep each other out lose no update.** For every order of
the calls of two `fs.write` on one path that carry the same guard, from every state:
if a request that has made the call that decides it makes all its further calls before
the other one goes on, then at most one of them succeeds, and the file is its
content. With `if_missing` the look at the path decides. With `if_sha256` it is the
opening of the file for its digest, and not the last read: the file that is open is
read to its end even if another is renamed over it meanwhile. -/
theorem guarded_writes_lose_nothing (env : FsEnv) (nonce₁ nonce₂ : ℕ) {r₁ r₂ : FsWrite} (hpath : r₁.path = r₂.path)
    (hguards : Conflicting env r₁ r₂) {trace : List (Side × Call)} {os os' : Os}
    {out₁ out₂ : Except AnyhowError AgentFsWriteResult}
    (h : Together Os.step trace (handleFsWrite (env.atNonce nonce₁) r₁) (handleFsWrite (env.atNonce nonce₂) r₂) os
      out₁ out₂ os')
    (hexclusive : Exclusive (fun c => r₁.Decides c ∧ r₂.Decides c) trace) : NoUpdateLost env r₁ r₂ out₁ out₂ os' := by
  obtain ⟨hdecided₁, hdecided₂⟩ := hguards.decided
  obtain ⟨x, y, os₀, os₁, ⟨hx, hy⟩, ⟨hfirst, hsecond⟩ | ⟨hfirst, hsecond⟩⟩ := together_exclusive
    (P := fun x y os => Undecided (env.atNonce nonce₁) (fun c => r₁.Decides c ∧ r₂.Decides c) r₁ x os ∧
      Undecided (env.atNonce nonce₂) (fun c => r₁.Decides c ∧ r₂.Decides c) r₂ y os)
    (fun ⟨hx, hy⟩ hc => have hcall := hx.step hdecided₁ hc; ⟨hcall.2, hy.keeps hcall.1⟩)
    (fun ⟨hx, hy⟩ hc => have hcall := hy.step hdecided₂ hc; ⟨hx.keeps hcall.1, hcall.2⟩)
    h hexclusive ⟨undecided_handleFsWrite _ r₁ os, undecided_handleFsWrite _ r₂ os⟩
  · exact noUpdateLost_of_runs hpath hguards hx hy hfirst hsecond
  · exact (noUpdateLost_of_runs hpath.symm hguards.symm hy hx hfirst hsecond).symm

/-! ### Two that do not -/

/-- A write of some text to `/b`, which is to hold `x`. -/
def replacing (text : String) : FsWrite := ⟨str "/b", str text, .utf8, none, false, false, false, some (str "x")⟩

theorem replacing_conflict : Conflicting plainEnv (replacing "y") (replacing "z") := by
  refine Or.inr ⟨str "x", ⟨rfl, fun bytes hbytes => ?_⟩, rfl, fun bytes hbytes => ?_⟩
  · obtain rfl := Except.ok.inj hbytes
    decide
  · obtain rfl := Except.ok.inj hbytes
    decide

/-- The calls of both writes in the order of a schedule. -/
def replaced (schedule : List Side) :
    Option (Except AnyhowError AgentFsWriteResult × Except AnyhowError AgentFsWriteResult × Os) :=
  interleave Os.step schedule (handleFsWrite (plainEnv.atNonce 0) (replacing "y"))
    (handleFsWrite (plainEnv.atNonce 1) (replacing "z")) bFileOs

/-- Both have looked before either writes, and both succeed. -/
theorem guarded_writes_lost :
    Conflicting plainEnv (replacing "y") (replacing "z") ∧
      bFileOs.fileContent (.ofStr (str "/b")) = some (str "x") ∧
      ∃ trace out₁ out₂ os', Together Os.step trace (handleFsWrite (plainEnv.atNonce 0) (replacing "y"))
        (handleFsWrite (plainEnv.atNonce 1) (replacing "z")) bFileOs out₁ out₂ os' ∧
          ¬ NoUpdateLost plainEnv (replacing "y") (replacing "z") out₁ out₂ os' := by
  refine ⟨replacing_conflict, by decide +kernel, ?_⟩
  have hboth : (replaced (.replicate 4 .left ++ .replicate 4 .right ++ .replicate 3 .left ++ .replicate 3 .right)).map
      (fun r => (r.1.isOk, r.2.1.isOk)) = some (true, true) := by decide +kernel
  obtain ⟨⟨out₁, out₂, os'⟩, hrun, hok⟩ := Option.map_eq_some_iff.mp hboth
  obtain ⟨h₁, h₂⟩ := Prod.mk.inj hok
  obtain ⟨trace, -, htogether⟩ := together_of_interleave hrun
  exact ⟨trace, out₁, out₂, os', htogether, fun h => h.atMostOne ⟨h₁, h₂⟩⟩

/-- The first call of such a write is the look at `/b`, which does not decide. -/
theorem replacing_looks {nonce : ℕ} {text : String} {c : Call} {k : c.Answer → Act AgentFsWriteResult}
    (h : handleFsWrite (plainEnv.atNonce nonce) (replacing text) = .call c k) : ¬ (replacing text).Decides c := by
  rcases @handleFsWrite_cases (plainEnv.atNonce nonce) (replacing text) with ⟨err, hfail⟩ | ⟨bytes, -, heq⟩
  · rw [hfail] at h
    cases h
  · rw [heq, show (replacing text).createParent = false from rfl, createParentDir_false] at h
    cases h
    exact Bool.false_ne_true

/-- Both look at the path, and then the one writes and the other is refused. -/
theorem guarded_writes_lose_nothing_in_turn :
    ∃ trace out₁ out₂ os', Together Os.step trace (handleFsWrite (plainEnv.atNonce 0) (replacing "y"))
      (handleFsWrite (plainEnv.atNonce 1) (replacing "z")) bFileOs out₁ out₂ os' ∧
        out₁.isOk = true ∧ NoUpdateLost plainEnv (replacing "y") (replacing "z") out₁ out₂ os' := by
  have hturn : (replaced ([.left, .right] ++ (.replicate 6 .left ++ .replicate 3 .right))).map (fun r => r.1.isOk) =
      some true := by decide +kernel
  obtain ⟨⟨out₁, out₂, os'⟩, hrun, hok⟩ := Option.map_eq_some_iff.mp hturn
  obtain ⟨trace, hsides, htogether⟩ := together_of_interleave hrun
  obtain ⟨⟨side, c⟩, after, rfl, rfl, hafter⟩ := List.map_eq_cons_iff.mp hsides
  obtain ⟨⟨side, d⟩, rest, rfl, rfl, hrest⟩ := List.map_eq_cons_iff.mp hafter
  obtain ⟨k, hleft, hnext⟩ := htogether.of_left
  obtain ⟨k', hright, -⟩ := hnext.swap.of_left
  have hapart : Apart (rest.map Prod.fst) := ⟨.left, 6, 3, hrest⟩
  have hpath : (replacing "y").path = (replacing "z").path := rfl
  refine ⟨_, out₁, out₂, os', htogether, hok,
    guarded_writes_lose_nothing plainEnv 0 1 hpath replacing_conflict htogether ?_⟩
  exact .cons (fun h => replacing_looks hleft h.1) (.cons (fun h => replacing_looks hright h.2) hapart.exclusive)

end Daemon

end Rsdb
