/-
# What a write that succeeds leaves

After an `fs.write` that succeeds, a regular file with the decoded bytes is at the
path, and the result says what was there before: once `create_parent` has made the
parent directories (`fs_write_law`). For a path without `..` that is what was there
when the request came, since a directory that is new is empty
(`createDirs_new`): nothing is in it that the path could lead to.
-/
import Rsdb.Daemon.WriteFile

namespace Rsdb

open Prog (run run_call run_bind run_bind_ok run_ofExcept)
open Os

namespace Os

/-! ### A directory that is new -/

theorem MadeDirs.less {Q : Loc → Prop} {os os' : Os} (h : MadeDirs Q os os') : Less os' os where
  toSameProcess := h.toSameProcess.symm
  view k := by
    rcases h.view k with heq | ⟨hnone, -, -⟩
    · exact Or.inl heq.symm
    · exact Or.inr hnone

/-- What a path names is still there when directories are made. -/
theorem MadeDirs.lookup_ok {Q : Loc → Prop} {os os' : Os} (h : MadeDirs Q os os') {follow : Bool} {p : Path} {l : Loc}
    {obj : Obj} (hlookup : os.lookup follow p = .ok (l, obj)) : os'.lookup follow p = .ok (l, obj) :=
  h.less.lookup_ok hlookup

/-- A path leads to a directory with nothing in it. -/
def LeadsToEmpty (os : Os) (p : Path) : Prop := ∃ dir, Leads os p dir ∧ ∀ n k, os.view (dir ++ n :: k) = none

theorem mkdir_leads {os os' : Os} {p : Path} (hdot : p.dot = false) (h : os.mkdir p = .ok os') :
    LeadsToEmpty os' p := by
  obtain ⟨l, hr, -, hplaced⟩ := mkdir_eq_ok h
  have hnone : os.view l = none := (resolve_sound hr).1
  have hold : FileOrNone os l := fun obj hv => by
    rw [hnone] at hv
    cases hv
  have hfollow : os.resolve true p = .ok (.missing l) := by
    rw [resolve_follow (fun l' target heq => ?_), hr]
    rw [hr] at heq
    cases heq
  have hthere := resolve_placed hplaced hold (by simp) hfollow rfl
  refine ⟨l, ⟨os.masked 0o777, ?_⟩, fun n k => ?_⟩
  · unfold resolve at hthere
    split at hthere
    · cases hthere
    · have hcomps : kernelComps p = p.comps := by rw [kernelComps, hdot, if_neg Bool.false_ne_true, List.append_nil]
      rwa [hcomps] at hthere
  · rw [hplaced.other (by simp)]
    exact DirTree.view_append_eq_none hnone (n :: k)

/-- From an empty directory, a component and a `.` lead nowhere but to itself. -/
theorem walkWith_empty {os : Os} {dir : Loc} {m : ℕ} (hv : os.view dir = some (.inr m))
    (hempty : ∀ n k, os.view (dir ++ n :: k) = none) {c : Comp} (hc : c ≠ .parent) (dot follow : Bool) :
    ∃ result, (∀ jump, walkWith os follow jump (c :: if dot then [.cur] else []) dir = result) ∧
      ∀ l obj, result = .ok (.entry l obj) → l = dir ∧ obj = .inr m := by
  cases hs : os.may m ownerSearch with
  | false => exact ⟨.error .permissionDenied, fun jump => walkWith_denied hv hs c _, by simp⟩
  | true =>
    cases c with
    | parent => exact absurd rfl hc
    | cur =>
      refine ⟨.ok (.entry dir (.inr m)), fun jump => ?_, fun l obj h => ?_⟩
      · rw [walkWith_cur hv hs]
        cases dot with
        | false => simp [walkWith, hv]
        | true => rw [if_pos rfl, walkWith_cur hv hs]; simp [walkWith, hv]
      · cases h
        exact ⟨rfl, rfl⟩
    | normal n =>
      have hnone : os.view (dir ++ [n]) = none := hempty n []
      cases dot with
      | false => exact ⟨.ok (.missing (dir ++ [n])), fun jump => walkWith_missing hv hs hnone, by simp⟩
      | true =>
        refine ⟨.error .notFound, fun jump => ?_, by simp⟩
        unfold walkWith
        simp [hv, hs, hnone]

/-- What a path with one more component leads to is that directory, if anything. -/
theorem LeadsToEmpty.next {os : Os} {q p : Path} (h : LeadsToEmpty os q) (habs : p.abs = q.abs) {c : Comp}
    (hcomps : p.comps = q.comps ++ [c]) (hc : c ≠ .parent) {follow : Bool} {l : Loc} {obj : Obj}
    (hr : os.resolve follow p = .ok (.entry l obj)) :
    (∃ m, obj = .inr m) ∧ ∀ n k, os.view (l ++ n :: k) = none := by
  obtain ⟨dir, ⟨m, hw⟩, hempty⟩ := h
  obtain ⟨result, hresult, hentry⟩ := walkWith_empty (walk_sound hw) hempty hc p.dot follow
  have hkernel : kernelComps p = q.comps ++ c :: if p.dot then [.cur] else [] := by
    rw [kernelComps, hcomps, List.append_assoc, List.singleton_append]
  have hstart : os.start q = if p.abs then [] else os.cwd := by rw [Os.start, habs]
  unfold resolve at hr
  split at hr
  · cases hr
  · rw [hkernel, ← hstart, walk_append (List.cons_ne_nil c _) hresult hw] at hr
    obtain ⟨rfl, rfl⟩ := hentry l obj hr
    exact ⟨⟨m, rfl⟩, hempty⟩

theorem firstMade_of_parent {os : Os} {p q : Path} (hparent : p.parent = some q)
    (hmkdir : os.mkdir p = .error .notFound) : os.firstMade p.ancestors = os.firstMade q.ancestors := by
  have hasks : IoErrorKind.notFound = .notFound ∧ p.parent ≠ none :=
    ⟨rfl, by rw [hparent]; exact Option.some_ne_none q⟩
  rw [Path.ancestors_of_parent hparent, firstMade, hmkdir]
  exact if_pos hasks

/-- `create_dir_all` that succeeds makes no directory, or the path leads to a new
one. -/
theorem createDirs_new {p : Path} {os os' : Os} (hdot : p.dot = false) (hplain : ∀ c ∈ p.comps, c ≠ .parent)
    (h : run step (Act.createDirs p.ancestors) os = (.ok (.ok ()), os')) :
    os.firstMade p.ancestors = none ∨ LeadsToEmpty os' p := by
  cases hparent : p.parent with
  | none =>
    cases hemp : p.isEmpty with
    | true =>
      rw [Path.ancestors_of_root hparent, hemp]
      exact Or.inl rfl
    | false =>
      rw [Path.ancestors_of_root hparent, hemp, if_neg Bool.false_ne_true] at h ⊢
      rw [run_createDirs] at h
      rw [firstMade]
      cases hmkdir : os.mkdir p with
      | ok os₁ =>
        rw [hmkdir] at h
        obtain ⟨-, rfl⟩ := Prod.mk.inj h
        exact Or.inr (mkdir_leads hdot hmkdir)
      | error e => exact Or.inl (if_neg fun h => h.2 hparent)
  | some q =>
    obtain ⟨hne, hqcomps⟩ := Path.parent_comps hparent
    have hcomps : p.comps = q.comps ++ [p.comps.getLast hne] := by rw [hqcomps, List.dropLast_append_getLast]
    rw [Path.ancestors_of_parent hparent, run_createDirs] at h
    cases hmkdir : os.mkdir p with
    | ok os₁ =>
      rw [hmkdir] at h
      obtain ⟨-, rfl⟩ := Prod.mk.inj h
      exact Or.inr (mkdir_leads hdot hmkdir)
    | error e =>
      by_cases he : e = .notFound
      · subst he
        rw [hmkdir] at h
        simp only [ne_eq, not_true_eq_false, hparent, reduceCtorEq, ↓reduceIte] at h
        rcases hrun : run step (Act.createDirs q.ancestors) os with ⟨r, os₁⟩
        rw [hrun] at h
        rcases r with err | err | u
        · cases h
        · cases h
        · have hqdot := Path.parent_dot hparent
          have hqplain : ∀ c ∈ q.comps, c ≠ .parent := fun c hc =>
            hplain c (List.mem_of_mem_dropLast (hqcomps ▸ hc))
          rcases createDirs_new hqdot hqplain hrun with hnone | hempty
          · exact Or.inl ((firstMade_of_parent hparent hmkdir).trans hnone)
          · right
            simp only at h
            cases hmkdir' : os₁.mkdir p with
            | ok os₂ =>
              rw [hmkdir'] at h
              obtain ⟨-, rfl⟩ := Prod.mk.inj h
              exact mkdir_leads hdot hmkdir'
            | error e =>
              -- it is a directory all the same, the one above or nothing
              rw [hmkdir'] at h
              simp only at h
              obtain ⟨hdir, rfl⟩ := Prod.mk.inj h
              have hisDir : os₁.isDirAt p = true := by
                by_contra hno
                rw [if_neg hno] at hdir
                cases hdir
              unfold isDirAt at hisDir
              split at hisDir
              · rename_i l m hlookup
                obtain ⟨hr, -, -⟩ := lookup_eq_ok hlookup
                obtain ⟨-, hbelow⟩ := hempty.next (Path.parent_abs hparent).symm hcomps
                  (hplain _ (List.getLast_mem hne)) hr
                exact ⟨l, leads_of_lookup hlookup, hbelow⟩
              · cases hisDir
      · rw [Path.ancestors_of_parent hparent, firstMade, hmkdir]
        exact Or.inl (if_neg fun h => he h.1)
termination_by p.comps.length
decreasing_by
  rw [hqcomps, List.length_dropLast]
  have := List.length_pos_iff.mpr hne
  omega

end Os

namespace Daemon

variable {env : FsEnv}

/-! ### The stages of a write -/

/-- What a write that gets to its file has gone through. -/
theorem fsWriteStart_ok {request : FsWrite} {os os' : Os} {start : Path × Bytes × Bool}
    (h : run Os.step (fsWriteStart env request) os = (.ok start, os')) :
    ∃ bytes changed os₁, start = (.ofStr request.path, bytes, changed) ∧
      decodeFsContent env request.content request.encoding = .ok bytes ∧
      run Os.step (createParentDir (.ofStr request.path) request.createParent) os = (.ok (), os₁) ∧
      run Os.step (fsWriteChecks env request (.ofStr request.path) bytes) os₁ = (.ok changed, os') := by
  obtain ⟨path, os₃, hvalid, h⟩ := (run_bind_ok Os.step).mp h
  rw [run_ofExcept] at hvalid
  obtain ⟨hpath, rfl⟩ := Prod.mk.inj hvalid
  obtain rfl := validateFsPath_eq_ok hpath
  obtain ⟨bytes, os₄, hdecode, h⟩ := (run_bind_ok Os.step).mp h
  rw [run_ofExcept] at hdecode
  obtain ⟨hbytes, rfl⟩ := Prod.mk.inj hdecode
  split at h
  · cases h
  · obtain ⟨_, os₁, hparent, h⟩ := (run_bind_ok Os.step).mp h
    obtain ⟨changed, os₂, hchecks, h⟩ := (run_bind_ok Os.step).mp h
    obtain ⟨hstart, rfl⟩ := Prod.mk.inj h
    exact ⟨bytes, changed, os₁, (Except.ok.inj hstart).symm, hbytes, hparent, hchecks⟩

/-- What a write that succeeds has gone through. -/
theorem handleFsWrite_ok {request : FsWrite} {os os' : Os} {result : AgentFsWriteResult}
    (h : run Os.step (handleFsWrite env request) os = (.ok result, os')) :
    ∃ bytes changed os₁ os₂, decodeFsContent env request.content request.encoding = .ok bytes ∧
      run Os.step (createParentDir (.ofStr request.path) request.createParent) os = (.ok (), os₁) ∧
      run Os.step (fsWriteChecks env request (.ofStr request.path) bytes) os₁ = (.ok changed, os₂) ∧
      run Os.step (fsWriteRest env request (.ofStr request.path) bytes changed) os₂ = (.ok result, os') := by
  rw [handleFsWrite_eq] at h
  obtain ⟨start, os₂, hstart, hrest⟩ := (run_bind_ok Os.step).mp h
  obtain ⟨bytes, changed, os₁, rfl, hbytes, hparent, hchecks⟩ := fsWriteStart_ok hstart
  exact ⟨bytes, changed, os₁, os₂, hbytes, hparent, hchecks, hrest⟩

/-- The stages of the checks, from what is at the path on. -/
theorem fsWriteChecksOn_stages {request : FsWrite} {path : Path} {bytes : Bytes} {existing : Option Metadata}
    {os os' : Os} {changed : Bool}
    (h : run Os.step (fsWriteChecksOn env request path bytes existing) os = (.ok changed, os')) :
    existing.any Metadata.isDir = false ∧ (request.ifMissing = true → existing = none) ∧
      ∃ previous os₁, run Os.step (checkSha256 env path existing request.ifSha256) os = (.ok previous, os₁) ∧
        run Os.step (isChanged env path bytes existing previous) os₁ = (.ok changed, os') := by
  unfold fsWriteChecksOn at h
  split at h
  · cases h
  · rename_i hdir
    split at h
    · cases h
    · rename_i hmissing
      obtain ⟨previous, os₁, hcheck, hchanged⟩ := (run_bind_ok Os.step).mp h
      refine ⟨Bool.eq_false_iff.mpr hdir, fun hif => ?_, previous, os₁, hcheck, hchanged⟩
      cases existing with
      | none => rfl
      | some metadata => exact absurd ⟨hif, rfl⟩ hmissing

/-- The stages of the checks. -/
theorem fsWriteChecks_ok {request : FsWrite} {path : Path} {bytes : Bytes} {os os' : Os} {changed : Bool}
    (h : run Os.step (fsWriteChecks env request path bytes) os = (.ok changed, os')) :
    ∃ existing previous, run Os.step (existingMetadata path) os = (.ok existing, os) ∧
      existing.any Metadata.isDir = false ∧ (request.ifMissing = true → existing = none) ∧
      ∃ os₁, run Os.step (checkSha256 env path existing request.ifSha256) os = (.ok previous, os₁) ∧
        run Os.step (isChanged env path bytes existing previous) os₁ = (.ok changed, os') := by
  rw [fsWriteChecks_eq] at h
  obtain ⟨existing, os₁, hexisting, hrest⟩ := (run_bind_ok Os.step).mp h
  obtain ⟨rfl, -⟩ := existingMetadata_ok hexisting
  obtain ⟨hdir, hmissing, previous, os₂, hcheck, hchanged⟩ := fsWriteChecksOn_stages hrest
  exact ⟨existing, previous, hexisting, hdir, hmissing, os₂, hcheck, hchanged⟩

/-- The metadata of nothing, or of a regular file. -/
theorem existing_of_absentOrFile {path : Path} {os : Os} {existing : Option Metadata} (hpath : AbsentOrFile os path)
    (h : run Os.step (existingMetadata path) os = (.ok existing, os)) :
    (existing = none ∧ os.fileContent path = none) ∨
      ∃ m content, existing = some ⟨.file, m, content.length⟩ ∧ os.fileContent path = some content := by
  obtain ⟨-, ⟨rfl, habsent⟩ | ⟨l, obj, rfl, hlookup⟩⟩ := existingMetadata_ok h
  · exact Or.inl ⟨rfl, by rw [fileContent, habsent]⟩
  · rcases hpath with habsent | ⟨l', m, content, hfile⟩
    · rw [habsent] at hlookup
      cases hlookup
    · rw [hfile] at hlookup
      cases hlookup
      exact Or.inr ⟨m, content, rfl, fileContent_eq_some.mpr ⟨l, m, hfile⟩⟩

/-- The flag is that of comparing the contents, whichever way it is found. -/
theorem isChanged_ok (hsha : Function.Injective env.sha256) {path : Path} {bytes : Bytes} {existing : Option Metadata}
    {previous : Option Str} {os os₁ os' : Os} {changed : Bool} (hpath : AbsentOrFile os path)
    (hexisting : run Os.step (existingMetadata path) os = (.ok existing, os)) (hsame : SameTree os os₁)
    (hprevious : ∀ digest, previous = some digest →
      ∃ content, os.fileContent path = some content ∧ env.sha256 content = digest)
    (h : run Os.step (isChanged env path bytes existing previous) os₁ = (.ok changed, os')) :
    changed = false ↔ os.fileContent path = some bytes := by
  rcases existing_of_absentOrFile hpath hexisting with ⟨rfl, hnone⟩ | ⟨m, content, rfl, hcontent⟩
  · obtain ⟨hchanged, -⟩ := Prod.mk.inj h
    rw [hnone, ← Except.ok.inj hchanged]
    exact iff_of_false Bool.noConfusion (Option.some_ne_none bytes).symm
  · have hdigests : ∀ digest, digest = env.sha256 content →
        (decide (digest ≠ env.sha256 bytes) = false ↔ os.fileContent path = some bytes) := by
      rintro digest rfl
      rw [hcontent, decide_eq_false_iff_not, not_not, hsha.eq_iff, Option.some_inj]
    by_cases hlength : content.length ≠ bytes.length
    · have hskip : isChanged env path bytes (some ⟨.file, m, content.length⟩) previous = pure true := if_pos hlength
      rw [hskip] at h
      obtain ⟨hchanged, -⟩ := Prod.mk.inj h
      rw [hcontent, ← Except.ok.inj hchanged]
      refine iff_of_false Bool.noConfusion fun heq => hlength ?_
      rw [Option.some.inj heq]
    · cases previous with
      | some digest =>
        have hguarded : isChanged env path bytes (some ⟨.file, m, content.length⟩) (some digest) =
            pure (decide (digest ≠ env.sha256 bytes)) := if_neg hlength
        rw [hguarded] at h
        obtain ⟨hchanged, -⟩ := Prod.mk.inj h
        obtain ⟨content', hcontent', hdigest⟩ := hprevious digest rfl
        obtain rfl := Option.some.inj (hcontent.symm.trans hcontent')
        rw [← Except.ok.inj hchanged]
        exact hdigests digest hdigest.symm
      | none =>
        have hlazy : isChanged env path bytes (some ⟨.file, m, content.length⟩) none =
            (sha256Path env.sha256 env.reads path >>= fun digest => pure (decide (digest ≠ env.sha256 bytes))) :=
          if_neg hlength
        rw [hlazy] at h
        obtain ⟨digest, os₂, hsha256, hpure⟩ := (run_bind_ok Os.step).mp h
        obtain ⟨hchanged, -⟩ := Prod.mk.inj hpure
        obtain ⟨l, m', content', hlookup, hdigest⟩ := sha256Path_eq_ok hsha256
        obtain ⟨l', m'', hfile⟩ := fileContent_eq_some.mp hcontent
        rw [hsame.lookup, lookup_of_file hfile] at hlookup
        cases hlookup
        rw [← Except.ok.inj hchanged]
        exact hdigests digest hdigest

/-- What the file at the path is after the write. -/
theorem fsWriteRest_ok {request : FsWrite} {path : Path} {bytes : Bytes} {changed : Bool} {os os' : Os}
    {result : AgentFsWriteResult} (hpath : AbsentOrFile os path)
    (h : run Os.step (fsWriteRest env request path bytes changed) os = (.ok result, os')) :
    os'.fileContent path = some bytes ∧ result.bytesWritten = bytes.length ∧
      result.sha256 = some (env.sha256 bytes) ∧ result.changed = changed := by
  obtain ⟨_, os₁, hwrite, hrest⟩ := (run_bind_ok Os.step).mp h
  obtain ⟨mode, os₂, hmode, hend⟩ := (run_bind_ok Os.step).mp hrest
  obtain ⟨hresult, rfl⟩ := Prod.mk.inj hend
  obtain rfl := Except.ok.inj hresult
  refine ⟨?_, rfl, rfl, rfl⟩
  have hplaced : ∃ f m, FileAt os path f ∧ Placed os os₁ f.loc (.inl (.file m bytes)) := by
    unfold fsWriteFile at hwrite
    split at hwrite
    · obtain ⟨f, hat, hplaced⟩ := writeAtomicFile_placed hpath hwrite
      exact ⟨f, _, hat, hplaced⟩
    · obtain ⟨f, hat, hplaced⟩ := writeDirectFile_placed hpath hwrite
      exact ⟨f, _, hat, hplaced⟩
  obtain ⟨f, m, hat, hplaced⟩ := hplaced
  have hlooks : SameTree os₁ os₂ := by
    have hreads : Prog.All Call.ReadsOnly (finalMode path) := ⟨trivial, fun reply => by cases reply <;> trivial⟩
    have hafter := run_readsOnly hreads os₁
    rwa [hmode] at hafter
  exact fileContent_eq_some.mpr ⟨f.loc, m, (hlooks.lookup false path).trans (hat.lookup_placed hplaced false)⟩

/-! ### Before the write -/

/-- A path without `..` leads to the same before its parent is made, if what it
leads to then is no directory and can be looked up. -/
theorem lookup_before {path : Path} {createParent : Bool} {os os₁ : Os} (hplain : ∀ c ∈ path.comps, c ≠ .parent)
    (hpath : AbsentOrFile os path) (hrun : run Os.step (createParentDir path createParent) os = (.ok (), os₁))
    (hdir : ∀ l m, os₁.lookup false path ≠ .ok (l, .inr m))
    (herror : ∀ e, os₁.lookup false path = .error e → e = .notFound) :
    os₁.lookup false path = os.lookup false path := by
  unfold createParentDir at hrun
  cases hparent : path.parent with
  | none =>
    rw [hparent] at hrun
    rw [← (Prod.mk.inj hrun).2]
  | some q =>
    rw [hparent] at hrun
    simp only at hrun
    split at hrun
    · obtain ⟨hne, hqcomps⟩ := Path.parent_comps hparent
      have hqdot := Path.parent_dot hparent
      have hqplain : ∀ c ∈ q.comps, c ≠ .parent := fun c hc => hplain c (List.mem_of_mem_dropLast (hqcomps ▸ hc))
      obtain ⟨result, os₂, hdirs, hcontext⟩ := (run_bind_ok Os.step).mp hrun
      obtain ⟨rfl, rfl⟩ := run_ioContext_ok hcontext
      obtain ⟨r, os₁, hmake, hmade, hsame, -⟩ := run_createDirs_made q.ancestors os
      have hdirs' : run Os.step (Act.createDirs q.ancestors) os = (.ok (.ok ()), os₂) := hdirs
      obtain rfl : os₁ = os₂ := (Prod.mk.inj (hmake.symm.trans hdirs')).2
      rcases createDirs_new hqdot hqplain hdirs' with hnone | hempty
      · rw [hsame hnone]
      · have habsent : os₁.lookup false path = .error .notFound := by
          cases hlookup : os₁.lookup false path with
          | error e => rw [herror e hlookup]
          | ok found =>
            obtain ⟨l, obj⟩ := found
            obtain ⟨hr, -, -⟩ := lookup_eq_ok hlookup
            have hcomps : path.comps = q.comps ++ [path.comps.getLast hne] := by
              rw [hqcomps, List.dropLast_append_getLast]
            obtain ⟨⟨m, rfl⟩, -⟩ := hempty.next (Path.parent_abs hparent).symm hcomps
              (hplain _ (List.getLast_mem hne)) hr
            exact absurd hlookup (hdir l m)
        rcases hpath with hnone | ⟨l, m, content, hfile⟩
        · rw [habsent, hnone]
        · have hstill := hmade.lookup_ok hfile
          rw [habsent] at hstill
          cases hstill
    · rw [← (Prod.mk.inj hrun).2]

/-! ### The law -/

/-- What a write leaves, and what its result says of it and of what was there before. -/
structure Written (env : FsEnv) (request : FsWrite) (bytes : Bytes) (os os' : Os) (result : AgentFsWriteResult) :
    Prop where
  content : os'.fileContent (.ofStr request.path) = some bytes
  bytesWritten : result.bytesWritten = bytes.length
  sha256 : result.sha256 = some (env.sha256 bytes)
  changed : result.changed = false ↔ os.fileContent (.ofStr request.path) = some bytes
  ifMissing : request.ifMissing = true → os.lookup false (.ofStr request.path) = .error .notFound
  ifSha256 : ∀ digest, request.ifSha256 = some digest →
    ∃ content, os.fileContent (.ofStr request.path) = some content ∧ env.sha256 content = digest

/-- It speaks of what the path led to. -/
theorem Written.of_lookup {request : FsWrite} {bytes : Bytes} {os os₁ os' : Os} {result : AgentFsWriteResult}
    (h : Written env request bytes os₁ os' result)
    (hlookup : os₁.lookup false (.ofStr request.path) = os.lookup false (.ofStr request.path)) :
    Written env request bytes os os' result := by
  have hcontent : os₁.fileContent (.ofStr request.path) = os.fileContent (.ofStr request.path) := by
    rw [fileContent, fileContent, hlookup]
  exact { h with
    changed := hcontent ▸ h.changed
    ifMissing := hlookup ▸ h.ifMissing
    ifSha256 := hcontent ▸ h.ifSha256 }

/-- **What a write that succeeds means.** For every state, content, encoding and
combination of flags, with a digest that tells contents apart: where nothing or a
regular file is at the path once the parent directories are made, a write that
succeeds leaves the decoded bytes there and reports their length and their digest,
whether the same bytes were there, and has found what `if_missing` and `if_sha256`
ask for. For a path without `..`, or a request that makes no directories, that is
what was at the path when the request came. -/
theorem fs_write_law (hsha : Function.Injective env.sha256) (request : FsWrite) {os os' : Os}
    {result : AgentFsWriteResult} (h : run Os.step (handleFsWrite env request) os = (.ok result, os')) :
    ∃ bytes os₁, decodeFsContent env request.content request.encoding = .ok bytes ∧
      run Os.step (createParentDir (.ofStr request.path) request.createParent) os = (.ok (), os₁) ∧
      (AbsentOrFile os₁ (.ofStr request.path) → Written env request bytes os₁ os' result) ∧
      ((request.createParent = false ∨ ∀ c ∈ (Path.ofStr request.path).comps, c ≠ .parent) →
        AbsentOrFile os (.ofStr request.path) → Written env request bytes os os' result) := by
  obtain ⟨bytes, changed, os₁, os₂, hbytes, hparent, hchecks, hrest⟩ := handleFsWrite_ok h
  obtain ⟨existing, previous, hexisting, hnoDir, hmissing, os₃, hcheck, hchanged⟩ := fsWriteChecks_ok hchecks
  have hlooks : SameTree os₁ os₂ := by
    have hreads := run_readsOnly (fsWriteChecks_readsOnly env request (.ofStr request.path) bytes) os₁
    rwa [hchecks] at hreads
  have hlooks₃ : SameTree os₁ os₃ := by
    have hreads := run_readsOnly (checkSha256_readsOnly env (.ofStr request.path) existing request.ifSha256) os₁
    rwa [hcheck] at hreads
  have hlaw : AbsentOrFile os₁ (.ofStr request.path) → Written env request bytes os₁ os' result := by
    intro hpath
    have hpath₂ : AbsentOrFile os₂ (.ofStr request.path) := by
      unfold AbsentOrFile
      rw [hlooks.lookup]
      exact hpath
    obtain ⟨hcontent, hlength, hdigest, hflag⟩ := fsWriteRest_ok hpath₂ hrest
    have hguard : ∀ digest, request.ifSha256 = some digest → previous = some digest ∧
        ∃ content, os₁.fileContent (.ofStr request.path) = some content ∧ env.sha256 content = digest := by
      intro digest hasked
      rw [hasked] at hcheck
      exact checkSha256_eq_ok hexisting hcheck
    refine ⟨hcontent, hlength, hdigest, ?_, fun hasked => ?_, fun digest hasked => (hguard digest hasked).2⟩
    · rw [hflag]
      refine isChanged_ok hsha hpath hexisting hlooks₃ (fun digest hprevious => ?_) hchanged
      cases hasked : request.ifSha256 with
      | none =>
        rw [hasked] at hcheck
        obtain ⟨hnone, -⟩ := Prod.mk.inj hcheck
        rw [← Except.ok.inj hnone] at hprevious
        cases hprevious
      | some digest' =>
        obtain ⟨hsame, hfound⟩ := hguard digest' hasked
        obtain rfl := Option.some.inj (hprevious.symm.trans hsame)
        exact hfound
    · rcases hpath with habsent | ⟨l, m, content, hfile⟩
      · exact habsent
      · obtain ⟨-, ⟨-, habsent⟩ | ⟨_, _, hsome, -⟩⟩ := existingMetadata_ok hexisting
        · exact habsent
        · rw [hmissing hasked] at hsome
          cases hsome
  refine ⟨bytes, os₁, hbytes, hparent, hlaw, fun hplain hpath => ?_⟩
  have hbefore : os₁.lookup false (.ofStr request.path) = os.lookup false (.ofStr request.path) := by
    rcases hplain with hno | hplain
    · rw [hno, run_createParentDir_false] at hparent
      rw [(Prod.mk.inj hparent).2]
    · refine lookup_before hplain hpath hparent (fun l m hdir => ?_) fun e he => ?_
      · obtain ⟨-, ⟨-, habsent⟩ | ⟨_, _, rfl, hlookup⟩⟩ := existingMetadata_ok hexisting
        · rw [hdir] at habsent
          cases habsent
        · rw [hdir] at hlookup
          cases hlookup
          cases hnoDir
      · obtain ⟨-, ⟨-, habsent⟩ | ⟨_, _, -, hlookup⟩⟩ := existingMetadata_ok hexisting
        · rw [he] at habsent
          exact Except.error.inj habsent
        · rw [he] at hlookup
          cases hlookup
  refine (hlaw ?_).of_lookup hbefore
  unfold AbsentOrFile
  rw [hbefore]
  exact hpath

/-! ### Through a directory that is not there -/

/-- Contents are their own digests. -/
def plainEnv : FsEnv := { blindEnv with sha256 := id }

/-- A write of `x` to `/a/../b`. -/
def dotDotWrite (createParent : Bool) : FsWrite :=
  ⟨str "/a/../b", str "x", .utf8, none, createParent, false, false, none⟩

theorem isName_b : IsName (str "b") := by decide

/-- A file `/b` with the same content, and no `/a`. -/
def bFileOs : Os := Os.fresh.withLeaf [⟨str "b", isName_b⟩] (.file 0o644 (str "x"))

/-- The path leads nowhere, and after the write its content is said not to have changed. -/
theorem fs_write_not_literal :
    AbsentOrFile bFileOs (.ofStr (dotDotWrite true).path) ∧
      ∃ result, (run Os.step (handleFsWrite plainEnv (dotDotWrite true)) bFileOs).1 = .ok result ∧
        ∀ bytes os', ¬ Written plainEnv (dotDotWrite true) bytes bFileOs os' result := by
  have habsent : bFileOs.lookup false (.ofStr (dotDotWrite true).path) = .error .notFound := by decide +kernel
  refine ⟨Or.inl habsent, ⟨str "/a/../b", 1, some 0o644, some (str "x"), false⟩, by decide +kernel, ?_⟩
  intro bytes os' h
  have hcontent := h.changed.mp rfl
  rw [fileContent, habsent] at hcontent
  cases hcontent

/-- A write to `/b` that changes it. -/
def plainWrite : FsWrite := ⟨str "/b", str "y", .utf8, none, true, true, false, some (str "x")⟩

theorem fs_write_law_plain :
    ∃ bytes os₁, decodeFsContent plainEnv plainWrite.content plainWrite.encoding = .ok bytes ∧
      run Os.step (createParentDir (.ofStr plainWrite.path) plainWrite.createParent) bFileOs = (.ok (), os₁) ∧
      (AbsentOrFile os₁ (.ofStr plainWrite.path) → Written plainEnv plainWrite bytes os₁
        (run Os.step (handleFsWrite plainEnv plainWrite) bFileOs).2 ⟨str "/b", 1, some 0o644, some (str "y"), true⟩) ∧
      ((plainWrite.createParent = false ∨ ∀ c ∈ (Path.ofStr plainWrite.path).comps, c ≠ .parent) →
        AbsentOrFile bFileOs (.ofStr plainWrite.path) →
          Written plainEnv plainWrite bytes bFileOs (run Os.step (handleFsWrite plainEnv plainWrite) bFileOs).2
            ⟨str "/b", 1, some 0o644, some (str "y"), true⟩) :=
  fs_write_law Function.injective_id plainWrite (Prog.outcome_of_ok (by decide +kernel))

end Daemon

end Rsdb
