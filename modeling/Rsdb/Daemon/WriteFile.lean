/-
# Writing a file directly and by renaming

`write_direct_file` fills the file at the path; `write_atomic_file` fills a new
file beside it and renames that over it, and takes the new file away if a call
fails.

Both that succeed leave a file with the bytes at the path and nothing else
changed (`writeDirectFile_placed`, `writeAtomicFile_placed`). They leave the same
permission bits exactly where a mode is asked for, or the file is new, or a change
leaves it with the bits a new one gets (`writes_agree_iff`). A `write_atomic_file` that fails,
wherever it does, has changed nothing exactly when its cleanup found nothing to
remove at the temporary name beforehand (`atomic_write_fails_cleanly_iff`).
-/
import Rsdb.Daemon.FsWriteLaw
import Rsdb.Os.Faulty
import Rsdb.Os.Replace

namespace Rsdb

open Prog (run run_call run_ask run_bind run_bind_ok run_attempt outcome_of_ok wp wp_iff_run)
open Os

namespace Daemon

/-! ### The temporary name -/

/-- What is put around a name. -/
def tempName (env : FsEnv) (fileName : Str) : Str := str "." ++ fileName ++ str ".rsdb-tmp-" ++ decimal env.nonce

theorem tempName_length (env : FsEnv) (fileName : Str) : fileName.length + 11 ≤ (tempName env fileName).length := by
  have hdot : (str ".").length = 1 := rfl
  have htmp : (str ".rsdb-tmp-").length = 10 := rfl
  simp only [tempName, List.length_append, hdot, htmp]
  omega

theorem isName_tempName (env : FsEnv) {fileName : Str} (h : slashByte ∉ fileName) :
    IsName (tempName env fileName) := by
  have hlen := tempName_length env fileName
  have hshort : ∀ s : Str, s.length ≤ 2 → tempName env fileName ≠ s := fun s hs heq => by
    rw [heq] at hlen
    omega
  refine ⟨hshort [] (by decide), ?_, hshort dotName (by decide), hshort dotDotName (by decide)⟩
  have hdecimal : slashByte ∉ decimal env.nonce := fun hmem => by
    have hdigit := digit_of_mem_decimal hmem
    have hslash : slashByte.toNat = 47 := rfl
    omega
  simp only [tempName, List.mem_append, not_or]
  exact ⟨⟨⟨by decide, h⟩, by decide⟩, hdecimal⟩

theorem isUtf8_tempName (env : FsEnv) : isUtf8 (tempName env (str "rsdb-temp")) = true := by
  refine isUtf8_of_ascii fun b hb => ?_
  have hsplit : tempName env (str "rsdb-temp") = str ".rsdb-temp.rsdb-tmp-" ++ decimal env.nonce := rfl
  rw [hsplit, List.mem_append] at hb
  rcases hb with hb | hb
  · revert hb b
    decide +kernel
  · have hdigit := digit_of_mem_decimal hb
    have hlimit : (0x80 : UInt8).toNat = 128 := rfl
    rw [UInt8.lt_iff_toNat_lt]
    omega

/-- The temporary file is beside the path, and has another name. -/
theorem atomicTempPath_eq (env : FsEnv) (path : Path) :
    ∃ n : Name, path.fileName ≠ some n ∧ (atomicTempPath env path).fileName = some n ∧
      (atomicTempPath env path).slash = false ∧ (atomicTempPath env path).dot = false := by
  set fileName : Str := (path.fileName.filter fun name => isUtf8 name.1).elim (str "rsdb-temp") Subtype.val with hfile
  have hname : IsName (tempName env fileName) := by
    refine isName_tempName env ?_
    rw [hfile]
    cases path.fileName.filter fun name => isUtf8 name.1 with
    | none => decide
    | some name => exact name.2.2.1
  have hofStr : Path.ofStr (tempName env fileName) = .ofNames [⟨tempName env fileName, hname⟩] :=
    Path.ofStr_joinSlash [⟨tempName env fileName, hname⟩]
  refine ⟨⟨tempName env fileName, hname⟩, fun heq => ?_, ?_⟩
  · have hshow : ∀ name : Name, path.fileName = some name → name.1 ≠ tempName env fileName := by
      intro name hsome hsame
      cases hutf8 : isUtf8 name.1 with
      | true =>
        have hown : fileName = name.1 := by
          rw [hfile, hsome, Option.filter_some, hutf8, if_pos rfl]
          rfl
        have hlen := tempName_length env fileName
        rw [← hsame, ← hown] at hlen
        omega
      | false =>
        have hother : fileName = str "rsdb-temp" := by
          rw [hfile, hsome, Option.filter_some, hutf8, if_neg Bool.false_ne_true]
          rfl
        rw [hsame, hother, isUtf8_tempName] at hutf8
        cases hutf8
    exact hshow _ heq rfl
  · have hjoin : atomicTempPath env path =
        ((path.parent.filter fun parent => !parent.isEmpty).getD .here).join
          (.ofNames [⟨tempName env fileName, hname⟩]) := by
      rw [← hofStr]
      rfl
    rw [hjoin, Path.join_ofNames _ (List.cons_ne_nil _ [])]
    simp

/-! ### Where the file is -/

/-- Nothing is at the path, or a regular file. -/
def AbsentOrFile (os : Os) (path : Path) : Prop :=
  os.lookup false path = .error .notFound ∨ ∃ l m content, os.lookup false path = .ok (l, .inl (.file m content))

/-- The place of a regular file at the path, or of a new one. -/
structure FileAt (os : Os) (path : Path) (f : Found) : Prop where
  slash : path.slash = false
  resolves : ∀ follow, os.resolve follow path = .ok f
  kind : (∃ l, f = .missing l) ∨ ∃ l m content, f = .entry l (.inl (.file m content))

namespace FileAt

variable {os : Os} {path : Path} {f : Found} (h : FileAt os path f)

include h

theorem isFile : f.IsFile := by
  rcases h.kind with ⟨l, rfl⟩ | ⟨l, m, content, rfl⟩ <;> trivial

theorem fileOrNone : FileOrNone os f.loc := h.isFile.fileOrNone (resolve_sound (h.resolves false))

/-- A file that is put there is found there. -/
theorem lookup_placed {os' : Os} {m : ℕ} {content : Bytes} (hplaced : Placed os os' f.loc (.inl (.file m content)))
    (follow : Bool) : os'.lookup follow path = .ok (f.loc, .inl (.file m content)) := by
  have hresolve := resolve_placed hplaced h.fileOrNone (by simp) (h.resolves (follow || path.slash)) rfl
  rw [lookup, hresolve, h.slash]
  rfl

theorem lookup_entry {l : Loc} {m : ℕ} {content : Bytes} :
    os.lookup false path = .ok (l, .inl (.file m content)) ↔ f = .entry l (.inl (.file m content)) := by
  rw [lookup, h.slash, h.resolves]
  rcases h.kind with ⟨l', rfl⟩ | ⟨l', m', content', rfl⟩
  · exact iff_of_false (fun heq => by cases heq) fun heq => by cases heq
  · constructor
    · intro heq
      cases heq
      rfl
    · intro heq
      cases heq
      rfl

end FileAt

/-- What a path with nothing or a regular file there leads to. -/
theorem AbsentOrFile.fileAt {os : Os} {path : Path} (h : AbsentOrFile os path) (hslash : path.slash = false)
    {follow : Bool} {f : Found} (hr : os.resolve follow path = .ok f) : FileAt os path f := by
  have hlookup : ∀ l obj, os.resolve false path = .ok (.entry l obj) → os.lookup false path = .ok (l, obj) := by
    intro l obj hentry
    rw [lookup, hslash, Bool.or_false, hentry]
    rfl
  have hlink : ∀ l target, os.resolve false path ≠ .ok (.entry l (.inl (.symlink target))) := by
    intro l target heq
    have hsymlink := hlookup l _ heq
    rcases h with habsent | ⟨l', m, content, hfile⟩
    · rw [habsent] at hsymlink
      cases hsymlink
    · rw [hfile] at hsymlink
      cases hsymlink
  have hsame := resolve_follow hlink
  have hfound : os.resolve false path = .ok f := by rw [← hsame follow, hr]
  refine ⟨hslash, fun follow => by rw [hsame follow, hfound], ?_⟩
  cases f with
  | missing l => exact Or.inl ⟨l, rfl⟩
  | entry l obj =>
    have hentry := hlookup l obj hfound
    rcases h with habsent | ⟨l', m, content, hfile⟩
    · rw [habsent] at hentry
      cases hentry
    · rw [hfile] at hentry
      cases hentry
      exact Or.inr ⟨l, m, content, rfl⟩

/-! ### Filling a file -/

/-- The bytes, and then the mode. -/
def fillFile (fd : ℕ) (path : Path) (bytes : Bytes) (mode : Option ℕ) : Act Unit := do
  Act.io (← Act.write fd bytes)
  setMode path mode

/-- An empty file that is filled, where its path leads to it. -/
theorem run_fillFile {os os₁ : Os} {path : Path} {l : Loc} {m fd : ℕ} (hplaced : Placed os os₁ l (.inl (.file m [])))
    (hfd : os₁.handles[fd]? = some ⟨.inl l, 0⟩)
    (hpath : ∀ {os₂ : Os} {m : ℕ} {content : Bytes}, Placed os os₂ l (.inl (.file m content)) →
      os₂.lookup true path = .ok (l, .inl (.file m content))) (bytes : Bytes) (mode : Option ℕ)
    (hbits : mode = none → os.clearedBits m = m) :
    ∃ os₂, run Os.step (fillFile fd path bytes mode) os₁ = (.ok (), os₂) ∧
      Placed os os₂ l (.inl (.file (mode.elim m normalizeMode) bytes)) := by
  obtain ⟨os₂, hwrite, hwritten, -⟩ := @write_at_end os₁ fd l m [] hfd hplaced.self bytes
  have hfilled : Placed os os₂ l (.inl (.file (os₁.writtenBits m bytes) bytes)) := hplaced.trans hwritten
  have hstep : Os.step (.write fd bytes) os₁ = (.ok (), os₂) := by
    show os₁.done (os₁.write fd bytes) = _
    rw [hwrite]
    rfl
  have hrest : run Os.step (fillFile fd path bytes mode) os₁ = run Os.step (setMode path mode) os₂ := by
    rw [fillFile, run_bind, Act.write, run_ask, hstep]
    rfl
  rw [hrest]
  cases mode with
  | none =>
    rw [writtenBits_eq ((hplaced.toSameProcess.clearedBits m).trans (hbits rfl))] at hfilled
    exact ⟨os₂, rfl, hfilled⟩
  | some mode =>
    obtain ⟨os₃, hchmod, hmoded, -⟩ := chmod_eq (normalizeMode mode) (hpath hfilled)
    have hstep' : Os.step (.chmod path (normalizeMode mode)) os₂ = (.ok (), os₃) := by
      show os₂.done (os₂.chmod path (normalizeMode mode)) = _
      rw [hchmod]
      rfl
    refine ⟨os₃, ?_, hfilled.trans hmoded⟩
    rw [setMode, run_bind, Act.chmod, run_ask, hstep']
    rfl

/-! ### Both writes -/

/-- A call's result that is used with a context, in a run that succeeds. -/
theorem run_ioContext_bind_ok {α β : Type} {context : Str} {result : Except IoError α} {next : α → Act β}
    {os os' : Os} {b : β} (h : run Os.step (Act.ioContext context result >>= next) os = (.ok b, os')) :
    ∃ a, result = .ok a ∧ run Os.step (next a) os = (.ok b, os') := by
  cases result with
  | error err => cases h
  | ok a => exact ⟨a, rfl, h⟩

theorem run_ioContext_ok {α : Type} {context : Str} {result : Except IoError α} {os os' : Os} {a : α}
    (h : run Os.step (Act.ioContext context result) os = (.ok a, os')) : result = .ok a ∧ os = os' := by
  cases result with
  | error err => cases h
  | ok b =>
    obtain ⟨hb, rfl⟩ := Prod.mk.inj h
    exact ⟨congrArg Except.ok (Except.ok.inj hb), rfl⟩

theorem of_answer_ok {α : Type} {os : Os} {a : α} : ∀ {r : Except IoErrorKind (α × Os)},
    (os.answer r).1 = .ok a → r = .ok (a, (os.answer r).2)
  | .ok (_, _), h => congrArg (fun b => Except.ok (b, _)) (Except.ok.inj h)

theorem of_answer_eq {α : Type} {os os' : Os} {a : α} {r : Except IoErrorKind (α × Os)}
    (h : os.answer r = (.ok a, os')) : r = .ok (a, os') := by
  rw [of_answer_ok (congrArg Prod.fst h), h]

theorem of_done_ok {os : Os} : ∀ {r : Except IoErrorKind Os}, (os.done r).1 = .ok () → r = .ok (os.done r).2
  | .ok _, _ => rfl

theorem openWrite_slash {os os' : Os} {path : Path} {mode fd : ℕ} (h : os.openWrite path mode = .ok (fd, os')) :
    path.slash = false := by
  unfold openWrite at h
  cases hslash : path.slash with
  | false => rfl
  | true =>
    rw [hslash] at h
    split at h <;> cases h

/-- What a new file gets where no mode is asked for can be written without being cleared. -/
theorem openMode_plain : openMode none &&& (setuid ||| setgid) = 0 := by decide

/-- The bits of a file that is written: those asked for, else those it has from being opened. -/
def writtenMode (os : Os) (mode : Option ℕ) (old : Option Obj) : ℕ :=
  mode.elim (os.openedMode 0o666 old) normalizeMode

theorem writtenMode_eq (os : Os) (mode : Option ℕ) (old : Option Obj) :
    mode.elim (os.openedMode (openMode mode) old) normalizeMode = writtenMode os mode old := by
  cases mode <;> rfl

/-- A file that is opened at a path with nothing or a regular file there is filled. -/
theorem openWrite_fills {os os₁ : Os} {path : Path} {mode : Option ℕ} {fd : ℕ} (hpath : AbsentOrFile os path)
    (hopen : os.openWrite path (openMode mode) = .ok (fd, os₁)) (bytes : Bytes) :
    ∃ f os₂, FileAt os path f ∧ run Os.step (fillFile fd path bytes mode) os₁ = (.ok (), os₂) ∧
      Placed os os₂ f.loc (.inl (.file (writtenMode os mode (os.view f.loc)) bytes)) := by
  obtain ⟨f, hresolve, hcase⟩ := openWrite_eq_ok hopen
  have hat := hpath.fileAt (openWrite_slash hopen) hresolve
  rcases hcase with ⟨m, hother⟩ | ⟨-, hplaced, hopened⟩
  · have hsound := resolve_sound hresolve
    rcases hat.kind with ⟨l, rfl⟩ | ⟨l, m', content, rfl⟩
    · rw [Found.loc, hsound.1] at hother
      cases hother
    · have hfile : os.view l = some (.inl (.file m' content)) := hsound
      rw [Found.loc, hfile] at hother
      cases hother
  · obtain ⟨os₂, hrun, hfilled⟩ := run_fillFile hplaced hopened.get (fun hp => hat.lookup_placed hp true) bytes mode
      fun hnone => hnone ▸ clearedBits_openedMode openMode_plain _
    rw [writtenMode_eq] at hfilled
    exact ⟨f, os₂, hat, hrun, hfilled⟩

/-- A direct write that succeeds leaves the bytes in the file, which keeps the bits that
a change leaves it with unless others are asked for. -/
theorem writeDirectFile_placed {os os' : Os} {path : Path} {bytes : Bytes} {mode : Option ℕ}
    (hpath : AbsentOrFile os path) (h : run Os.step (writeDirectFile path bytes mode) os = (.ok (), os')) :
    ∃ f, FileAt os path f ∧
      Placed os os' f.loc (.inl (.file (writtenMode os mode (os.view f.loc)) bytes)) := by
  obtain ⟨fd, hstep, hfill⟩ := run_ioContext_bind_ok h
  have hopen : os.openWrite path (openMode mode) = .ok (fd, (Os.step (.openWrite path (openMode mode)) os).2) :=
    of_answer_ok hstep
  obtain ⟨f, os₂, hat, hrun, hfilled⟩ := openWrite_fills hpath hopen bytes
  obtain ⟨-, rfl⟩ := Prod.mk.inj (hrun.symm.trans hfill)
  exact ⟨f, hat, hfilled⟩

/-- A direct write that fails there has not opened the file, and has changed nothing. -/
theorem writeDirectFile_failed {os os' : Os} {path : Path} {bytes : Bytes} {mode : Option ℕ} {err : AnyhowError}
    (hpath : AbsentOrFile os path) (h : run Os.step (writeDirectFile path bytes mode) os = (.error err, os')) :
    os' = os := by
  rw [writeDirectFile, run_bind, Act.openWrite, run_ask] at h
  rcases hstep : Os.step (.openWrite path (openMode mode)) os with ⟨e | fd, os₁⟩
  · rw [hstep] at h
    rw [← (Prod.mk.inj h).2]
    exact (congrArg Prod.snd hstep).symm.trans (step_error (congrArg Prod.fst hstep))
  · rw [hstep] at h
    have hopen : os.openWrite path (openMode mode) = .ok (fd, os₁) := of_answer_eq hstep
    obtain ⟨f, os₂, -, hrun, -⟩ := openWrite_fills hpath hopen bytes
    cases hrun.symm.trans h

theorem createNew_eq_ok {os os' : Os} {path : Path} {mode fd : ℕ} (h : os.createNew path mode = .ok (fd, os')) :
    ∃ l, os.resolve false path = .ok (.missing l) ∧ path.slash = false ∧ os.mayChange l = true ∧
      Placed os os' l (.inl (.file (os.masked mode) [])) ∧ Opened os os' fd ⟨.inl l, 0⟩ := by
  unfold createNew at h
  cases hr : os.resolve false path with
  | error e => simp [hr] at h
  | ok f =>
    cases f with
    | entry l obj => simp [hr] at h
    | missing l =>
      cases hslash : path.slash with
      | true => simp [hr, hslash] at h
      | false =>
        simp only [hr, hslash, Bool.false_eq_true, ↓reduceIte] at h
        obtain ⟨hmay, hplaced, hopened⟩ := createFile_eq_ok (resolve_sound hr) h
        exact ⟨l, rfl, rfl, hmay, hplaced, hopened⟩

/-- The root of a tree with a directory in it. -/
theorem dir_root {os : Os} {l : Loc} {mode : ℕ} (h : os.view l = some (.inr mode)) :
    ∃ mode, os.view [] = some (.inr mode) := by
  cases l with
  | nil => exact ⟨mode, h⟩
  | cons n l => exact dir_above (l := []) h (List.cons_ne_nil n l)

/-- A file that is new beside a path and is renamed over it, when it is filled. -/
theorem rename_placed {os os₁ os' : Os} {temp path : Path} {t : Loc} {m : ℕ} {content : Bytes}
    (hpath : AbsentOrFile os path) (htemp : os.resolve false temp = .ok (.missing t))
    (hname : path.fileName ≠ temp.fileName) (hplaced : Placed os os₁ t (.inl (.file m content)))
    (h : os₁.rename temp path = .ok os') :
    ∃ f, FileAt os path f ∧ Placed os os' f.loc (.inl (.file m content)) := by
  obtain ⟨hnone, dir, name, mode, -, hdir, -⟩ : (Found.missing t).Sound os := resolve_sound htemp
  have hold : FileOrNone os t := fun obj hv => by
    rw [hnone] at hv
    cases hv
  have hdir' : os₁.view dir = some (.inr mode) := by
    rw [hplaced.other fun heq => ?_, hdir]
    rw [heq, hnone] at hdir
    cases hdir
  have hnew : FileOrNone os₁ t := by
    rintro obj hv
    obtain rfl := Option.some.inj (hplaced.self.symm.trans hv)
    exact ⟨by simp, by simp⟩
  have hthere : os₁.resolve false temp = .ok (.entry t (.inl (.file m content))) :=
    resolve_placed hplaced hold (by simp) htemp rfl
  obtain ⟨src, obj, f, hsrc, hdst, -, -, hslash, -, hcase⟩ := rename_eq_ok h
  obtain ⟨rfl, rfl⟩ := Found.entry.inj (Except.ok.inj (hthere.symm.trans hsrc))
  have haway : f.loc ≠ t := by
    intro hloc
    have hfile : f.IsFile := by
      have hsound := resolve_sound hdst
      cases f with
      | missing l => trivial
      | entry l obj =>
        obtain rfl : l = t := hloc
        obtain rfl := Option.some.inj (hplaced.self.symm.trans hsound)
        trivial
    -- both paths would end in the same name
    obtain ⟨-, n, hn, hlast⟩ := resolve_named (dir_root hdir') hdst hfile
    obtain ⟨-, n', hn', hlast'⟩ := resolve_named (dir_root hdir) htemp trivial
    rw [hloc] at hlast
    obtain rfl := Option.some.inj (hlast.symm.trans hlast')
    exact hname (hn.trans hn'.symm)
  have hresolve : os.resolve false path = .ok f :=
    resolve_elsewhere hplaced.toSameProcess.symm
      (fun k hk => (hplaced.other hk).symm) hnew hdst haway
  have hat := hpath.fileAt (hslash rfl).2 hresolve
  refine ⟨f, hat, ?_⟩
  rcases hcase with ⟨hsame, -⟩ | ⟨hapart, hapart', -, hmay, -, rfl⟩
  · exact absurd hsame.symm haway
  · exact placed_moveTree hnone hplaced hat.fileOrNone hapart hapart' hmay

/-- The file beside the path is filled before it is renamed. -/
theorem writeThenRename_eq (temp path : Path) (bytes : Bytes) (mode : Option ℕ) :
    writeThenRename temp path bytes mode = (do
      let fd ← Act.ioContext (str "failed to open " ++ temp.display) (← Act.createNew temp (openMode mode))
      fillFile fd temp bytes mode
      Act.ioContext (str "failed to rename " ++ temp.display ++ str " to " ++ path.display)
        (← Act.rename temp path)) := by
  simp only [writeThenRename, fillFile, Prog.bind_assoc]

/-- A new file is filled. -/
theorem createNew_fills {os os₁ : Os} {temp : Path} {mode : Option ℕ} {fd : ℕ}
    (hcreate : os.createNew temp (openMode mode) = .ok (fd, os₁)) (bytes : Bytes) :
    ∃ t os₂, os.resolve false temp = .ok (.missing t) ∧ temp.slash = false ∧ os.mayChange t = true ∧
      run Os.step (fillFile fd temp bytes mode) os₁ = (.ok (), os₂) ∧
        Placed os os₂ t (.inl (.file (writtenMode os mode none) bytes)) := by
  obtain ⟨t, hmissing, hslash, hmay, hplaced, hopened⟩ := createNew_eq_ok hcreate
  have hat : FileAt os temp (.missing t) := by
    refine AbsentOrFile.fileAt (Or.inl ?_) hslash hmissing
    rw [lookup, hslash, Bool.or_false, hmissing]
  obtain ⟨os₂, hrun, hfilled⟩ := run_fillFile hplaced hopened.get (fun hp => hat.lookup_placed hp true) bytes mode
    fun hnone => hnone ▸ clearedBits_masked openMode_plain
  have hbits : mode.elim (os.masked (openMode mode)) normalizeMode = writtenMode os mode none :=
    writtenMode_eq os mode none
  rw [hbits] at hfilled
  exact ⟨t, os₂, hmissing, hslash, hmay, hrun, hfilled⟩

/-- An atomic write that succeeds leaves the bytes in a file with the bits of a new
one, unless others are asked for. -/
theorem writeAtomicFile_placed {env : FsEnv} {os os' : Os} {path : Path} {bytes : Bytes} {mode : Option ℕ}
    (hpath : AbsentOrFile os path) (h : run Os.step (writeAtomicFile env path bytes mode) os = (.ok (), os')) :
    ∃ f, FileAt os path f ∧ Placed os os' f.loc (.inl (.file (writtenMode os mode none) bytes)) := by
  obtain ⟨n, hname, htemp, -, -⟩ := atomicTempPath_eq env path
  unfold writeAtomicFile at h
  obtain ⟨result, os₃, hattempt, hrest⟩ := (run_bind_ok Os.step).mp h
  cases result with
  | error err =>
    obtain ⟨_, _, -, hfail⟩ := (run_bind_ok Os.step).mp hrest
    cases hfail
  | ok u =>
    obtain ⟨-, rfl⟩ := Prod.mk.inj hrest
    rw [run_attempt] at hattempt
    obtain ⟨hok, hstate⟩ := Prod.mk.inj hattempt
    have hrun := outcome_of_ok (Except.ok.inj hok)
    rw [hstate, writeThenRename_eq] at hrun
    obtain ⟨fd, hstep, hfill⟩ := run_ioContext_bind_ok hrun
    have hcreate : os.createNew (atomicTempPath env path) (openMode mode) =
        .ok (fd, (Os.step (.createNew (atomicTempPath env path) (openMode mode)) os).2) := of_answer_ok hstep
    obtain ⟨t, os₂, hmissing, -, -, hrun', hfilled⟩ := createNew_fills hcreate bytes
    rw [run_bind, hrun'] at hfill
    obtain ⟨hstep', hend⟩ := run_ioContext_ok hfill
    have hrename : os₂.rename (atomicTempPath env path) path = .ok os₃ := hend ▸ of_done_ok hstep'
    exact rename_placed hpath hmissing (htemp ▸ hname) hfilled hrename

/-- One file at the path with the bytes, the same in both, and everything else as it was. -/
def LeaveSameFile (os os₁ os₂ : Os) (path : Path) (bytes : Bytes) : Prop :=
  ∃ l m, os₁.lookup false path = .ok (l, .inl (.file m bytes)) ∧ Placed os os₁ l (.inl (.file m bytes)) ∧
    os₂.lookup false path = .ok (l, .inl (.file m bytes)) ∧ Placed os os₂ l (.inl (.file m bytes))

/-- **Atomic and direct writes agree, but for the bits of a file that is there.**
For every state with nothing or a regular file at the path, which no other name
shares, every content and every mode, where both writes succeed: they leave the same
file and change nothing else if and only if a mode is asked for, or there is no file
yet, or a change leaves it with the bits of a new one. -/
theorem writes_agree_iff (env : FsEnv) {os osd osa : Os} {path : Path} {bytes : Bytes} {mode : Option ℕ}
    (hpath : AbsentOrFile os path) (hd : run Os.step (writeDirectFile path bytes mode) os = (.ok (), osd))
    (ha : run Os.step (writeAtomicFile env path bytes mode) os = (.ok (), osa)) :
    LeaveSameFile os osd osa path bytes ↔
      (mode = none → ∀ l m content, os.lookup false path = .ok (l, .inl (.file m content)) →
        os.clearedBits m = os.masked 0o666) := by
  obtain ⟨f, hat, hdirect⟩ := writeDirectFile_placed hpath hd
  obtain ⟨f', hat', hatomic⟩ := writeAtomicFile_placed hpath ha
  obtain rfl : f = f' := Except.ok.inj ((hat.resolves false).symm.trans (hat'.resolves false))
  have hbits : LeaveSameFile os osd osa path bytes ↔
      writtenMode os mode (os.view f.loc) = writtenMode os mode none := by
    constructor
    · rintro ⟨l, m, hd, -, ha, -⟩
      rw [hat.lookup_placed hdirect] at hd
      rw [hat.lookup_placed hatomic] at ha
      simp only [Except.ok.injEq, Prod.mk.injEq, Sum.inl.injEq, Leaf.file.injEq, and_true] at hd ha
      exact hd.2.trans ha.2.symm
    · intro hsame
      rw [hsame] at hdirect
      exact ⟨f.loc, _, hat.lookup_placed hdirect false, hdirect, hat.lookup_placed hatomic false, hatomic⟩
  rw [hbits]
  cases mode with
  | some mode => exact iff_of_true rfl (by simp)
  | none =>
    show os.openedMode 0o666 (os.view f.loc) = os.masked 0o666 ↔ _
    have hsound := resolve_sound (hat.resolves false)
    rcases hat.kind with ⟨l, rfl⟩ | ⟨l, m, content, rfl⟩
    · rw [Found.loc, hsound.1]
      refine iff_of_true rfl fun _ l' m content hfile => ?_
      cases hat.lookup_entry.mp hfile
    · have hview : os.view l = some (.inl (.file m content)) := hsound
      rw [Found.loc, hview]
      refine ⟨fun hm _ l' m' content' hfile => ?_, fun h => h rfl l m content (hat.lookup_entry.mpr rfl)⟩
      cases hat.lookup_entry.mp hfile
      exact hm

/-! ### A file that is private -/

/-- The name of a file. -/
def fName : Name := ⟨str "f", by decide⟩

/-- A file `/f` for its owner only. -/
def privateFileOs : Os := Os.fresh.withLeaf [fName] (.file 0o600 (str "old"))

theorem privateFile_file : AbsentOrFile privateFileOs (.ofStr (str "/f")) :=
  Or.inr ⟨[fName], 0o600, str "old", by decide +kernel⟩

/-- The file keeps its bits in a direct write, and gets others in an atomic one. -/
theorem writes_differ :
    AbsentOrFile privateFileOs (.ofStr (str "/f")) ∧
      (run Os.step (writeDirectFile (.ofStr (str "/f")) (str "new") none) privateFileOs).1 = .ok () ∧
      (run Os.step (writeAtomicFile blindEnv (.ofStr (str "/f")) (str "new") none) privateFileOs).1 = .ok () ∧
      ¬ LeaveSameFile privateFileOs
        (run Os.step (writeDirectFile (.ofStr (str "/f")) (str "new") none) privateFileOs).2
        (run Os.step (writeAtomicFile blindEnv (.ofStr (str "/f")) (str "new") none) privateFileOs).2
        (.ofStr (str "/f")) (str "new") := by
  refine ⟨privateFile_file, by decide +kernel, by decide +kernel, ?_⟩
  have hd : (run Os.step (writeDirectFile (.ofStr (str "/f")) (str "new") none) privateFileOs).2.lookup false
      (.ofStr (str "/f")) = .ok ([fName], .inl (.file 0o600 (str "new"))) := by decide +kernel
  have ha : (run Os.step (writeAtomicFile blindEnv (.ofStr (str "/f")) (str "new") none) privateFileOs).2.lookup false
      (.ofStr (str "/f")) = .ok ([fName], .inl (.file 0o644 (str "new"))) := by decide +kernel
  rintro ⟨l, m, hd', -, ha', -⟩
  rw [hd] at hd'
  rw [ha] at ha'
  cases hd'
  cases ha'

/-- With the bits asked for, both leave them. -/
theorem writes_agree_private :
    LeaveSameFile privateFileOs
        (run Os.step (writeDirectFile (.ofStr (str "/f")) (str "new") (some 0o600)) privateFileOs).2
        (run Os.step (writeAtomicFile blindEnv (.ofStr (str "/f")) (str "new") (some 0o600)) privateFileOs).2
        (.ofStr (str "/f")) (str "new") ↔
      (some 0o600 = none → ∀ l m content,
        privateFileOs.lookup false (.ofStr (str "/f")) = .ok (l, .inl (.file m content)) →
          privateFileOs.clearedBits m = privateFileOs.masked 0o666) :=
  writes_agree_iff blindEnv privateFile_file (outcome_of_ok (by decide +kernel)) (outcome_of_ok (by decide +kernel))

/-! ### An atomic write that fails -/

/-- A file with some content is new at a place. -/
def FileIn (os : Os) (l : Loc) (os' : Os) : Prop := ∃ m content, Placed os os' l (.inl (.file m content))

/-- A file is at the temporary name, where there was none. -/
def Leftover (os : Os) (temp : Path) (os' : Os) : Prop :=
  ∃ l, os.resolve false temp = .ok (.missing l) ∧ temp.slash = false ∧ os.mayChange l = true ∧ FileIn os l os'

section

variable {os : Os} {path : Path} {l : Loc} {P : Unit → Faulty → Prop} {Q : Os → Prop} {next : Unit → Act Unit}
  (hpath : ∀ {os' : Os} {m : ℕ} {content : Bytes}, Placed os os' l (.inl (.file m content)) →
    os'.lookup true path = .ok (l, .inl (.file m content)))
  (hleft : ∀ os', FileIn os l os' → Q os')

include hpath hleft

theorem wp_setMode {m : ℕ} {content : Bytes} {s : Faulty} (hplaced : Placed os s.os l (.inl (.file m content)))
    (mode : Option ℕ) (hnext : ∀ s' : Faulty, FileIn os l s'.os → s'.failed = s.failed →
      wp Faulty.step P (fun _ s => s.failed = true ∧ Q s.os) (next ()) s') :
    wp Faulty.step P (fun _ s => s.failed = true ∧ Q s.os) (setMode path mode >>= next) s := by
  cases mode with
  | none => exact hnext s ⟨m, content, hplaced⟩ rfl
  | some mode =>
    have hnow : Q s.os := hleft _ ⟨m, content, hplaced⟩
    rw [setMode, Prog.bind_assoc]
    refine Faulty.wp_asked (by simp) (fun e => ⟨_, rfl⟩) (fun _ s' hstep hfailed => ?_) hnow fun _ => hnow
    obtain ⟨os₁, hchmod, hmoded, -⟩ := chmod_eq (normalizeMode mode) (hpath hplaced)
    have hdone : (s.os.done (s.os.chmod path (normalizeMode mode))).2 = s'.os := congrArg Prod.snd hstep
    rw [hchmod] at hdone
    exact hnext s' ⟨normalizeMode mode, content, hdone ▸ hplaced.trans hmoded⟩ hfailed

theorem wp_fillFile {m fd : ℕ} {s : Faulty} (hplaced : Placed os s.os l (.inl (.file m [])))
    (hfd : s.os.handles[fd]? = some ⟨.inl l, 0⟩) (bytes : Bytes) (mode : Option ℕ)
    (hnext : ∀ s' : Faulty, FileIn os l s'.os → s'.failed = s.failed →
      wp Faulty.step P (fun _ s => s.failed = true ∧ Q s.os) (next ()) s') :
    wp Faulty.step P (fun _ s => s.failed = true ∧ Q s.os) (fillFile fd path bytes mode >>= next) s := by
  have hwrites : ∀ data, Placed os (s.os.step (.write fd data)).2 l (.inl (.file (s.os.writtenBits m data) data)) := by
    intro data
    obtain ⟨os₁, hwrite, hwritten, -⟩ := @write_at_end s.os fd l m [] hfd hplaced.self data
    show Placed os (s.os.done (s.os.write fd data)).2 l _
    rw [hwrite]
    exact hplaced.trans hwritten
  simp only [fillFile, Prog.bind_assoc]
  refine Faulty.wp_asked (by simp) (fun e => ⟨_, rfl⟩) (fun _ s' hstep hfailed => ?_)
    (hleft _ ⟨m, [], hplaced⟩) fun fault => hleft _ ⟨_, bytes.take fault.written, hwrites _⟩
  have hwritten := hwrites bytes
  rw [hstep] at hwritten
  exact wp_setMode hpath hleft hwritten mode fun s'' hin hfailed' => hnext s'' hin (hfailed'.trans hfailed)

end

/-- Whatever fails before the cleanup: nothing has changed, or the new file is there. -/
theorem wp_writeThenRename (temp path : Path) (bytes : Bytes) (mode : Option ℕ) (s : Faulty) :
    wp Faulty.step (fun _ s' => s'.failed = s.failed)
      (fun _ s' => s'.failed = true ∧ (s'.os = s.os ∨ Leftover s.os temp s'.os))
      (writeThenRename temp path bytes mode) s := by
  rw [writeThenRename_eq]
  refine Faulty.wp_asked (Q := fun os => os = s.os ∨ Leftover s.os temp os) (by simp) (fun e => ⟨_, rfl⟩)
    (fun fd s' hstep hfailed => ?_) (Or.inl rfl) fun _ => Or.inl rfl
  have hcreate : s.os.createNew temp (openMode mode) = .ok (fd, s'.os) := of_answer_eq hstep
  obtain ⟨l, hmissing, hslash, hmay, hplaced, hopened⟩ := createNew_eq_ok hcreate
  have hat : FileAt s.os temp (.missing l) := by
    refine AbsentOrFile.fileAt (Or.inl ?_) hslash hmissing
    rw [lookup, hslash, Bool.or_false, hmissing]
  have hleft : ∀ os, FileIn s.os l os → os = s.os ∨ Leftover s.os temp os :=
    fun os hin => Or.inr ⟨l, hmissing, hslash, hmay, hin⟩
  refine wp_fillFile (fun hp => hat.lookup_placed hp true) hleft hplaced hopened.get bytes mode
    fun s₂ hin hfailed₂ => ?_
  show wp Faulty.step _ _ (Prog.ask (.rename temp path) >>= fun result => Act.ioContext _ result) s₂
  refine Faulty.wp_asked (Q := fun os => os = s.os ∨ Leftover s.os temp os) (by simp) (fun e => ⟨_, rfl⟩)
    (fun _ s₃ _ hfailed₃ => ?_) (hleft _ hin) fun _ => hleft _ hin
  exact hfailed₃.trans (hfailed₂.trans hfailed)

/-- What can be removed is there, and is gone then. -/
theorem unlink_eq_ok {os os' : Os} {p : Path} (h : os.unlink p = .ok os') :
    ∃ l leaf, os.view l = some (.inl leaf) ∧ Without (l <+: ·) os os' := by
  cases hr : os.resolve false p with
  | error e => simp [unlink, hr] at h
  | ok f =>
    rcases f with ⟨l, leaf | mode⟩ | l
    · cases hslash : p.slash with
      | true => simp [unlink, hr, hslash] at h
      | false =>
        have hunlink := unlink_leaf hr hslash
        split at hunlink
        · obtain ⟨os₁, hok, hgone⟩ := hunlink
          obtain rfl := Except.ok.inj (hok.symm.trans h)
          exact ⟨l, leaf, resolve_sound hr, hgone⟩
        · rw [hunlink] at h
          cases h
    · simp [unlink, hr] at h
    · simp [unlink, hr] at h

/-- The cleanup, where nothing has changed or the new file is there: it restores
the tree exactly if there was nothing to remove before. -/
theorem cleanup_iff {os os₁ : Os} {temp : Path} (h : os₁ = os ∨ Leftover os temp os₁) :
    SameTree os (os₁.step (.unlink temp)).2 ↔ ∃ kind, os.unlink temp = .error kind := by
  rcases h with rfl | ⟨l, hmissing, hslash, hmay, m, content, hplaced⟩
  · show SameTree os₁ (os₁.done (os₁.unlink temp)).2 ↔ _
    cases hunlink : os₁.unlink temp with
    | error kind => exact iff_of_true (SameTree.refl os₁) ⟨kind, rfl⟩
    | ok os₂ =>
      refine iff_of_false (fun hsame => ?_) (by simp)
      obtain ⟨l, leaf, hthere, hgone⟩ := unlink_eq_ok hunlink
      rw [← hsame.view l, show (os₁.done (.ok os₂)).2.view l = none from hgone.taken l List.prefix_rfl] at hthere
      cases hthere
  · obtain ⟨hnone, dir, name, mode, rfl, hdir, -⟩ : (Found.missing l).Sound os := resolve_sound hmissing
    have hold : FileOrNone os (dir ++ [name]) := fun obj hv => by
      rw [hnone] at hv
      cases hv
    have hthere := resolve_placed hplaced hold (by simp) hmissing rfl
    have hmay' : os₁.mayChange (dir ++ [name]) = true := by
      have hdir' : os₁.view dir = some (.inr mode) := (hplaced.other (by simp)).trans hdir
      rw [mayChange_concat hdir', hplaced.toSameProcess.may, hplaced.toSameProcess.may, ← mayChange_concat hdir name]
      exact hmay
    have hunlink := unlink_leaf hthere hslash
    rw [if_pos hmay'] at hunlink
    obtain ⟨os₂, hok, hgone⟩ := hunlink
    have hafter : (os₁.step (.unlink temp)).2 = os₂ := by
      show (os₁.done (os₁.unlink temp)).2 = os₂
      rw [hok]
      rfl
    rw [hafter]
    refine iff_of_true (sameTree_of_without hnone hplaced hgone) ⟨.notFound, ?_⟩
    rw [unlink, hmissing]

/-- The cleanup only takes away. -/
theorem cleanup_less {os os₁ : Os} {temp : Path} (h : os₁ = os ∨ Leftover os temp os₁) :
    Less os (os₁.step (.unlink temp)).2 := by
  cases hunlink : os.unlink temp with
  | error kind => exact ((cleanup_iff h).mpr ⟨kind, hunlink⟩).less
  | ok os₂ =>
    rcases h with rfl | ⟨l, hmissing, -⟩
    · obtain ⟨l, leaf, -, hgone⟩ := unlink_eq_ok hunlink
      show Less os₁ (os₁.done (os₁.unlink temp)).2
      rw [hunlink]
      exact hgone.less
    · rw [unlink, hmissing] at hunlink
      cases hunlink

/-- Where no call is made to fail, too, nothing has changed or the new file is there. -/
theorem writeThenRename_failed {os os' : Os} {temp path : Path} {bytes : Bytes} {mode : Option ℕ} {err : AnyhowError}
    (h : run Os.step (writeThenRename temp path bytes mode) os = (.error err, os')) :
    os' = os ∨ Leftover os temp os' := by
  rw [writeThenRename_eq, run_bind, Act.createNew, run_ask] at h
  rcases hstep : Os.step (.createNew temp (openMode mode)) os with ⟨e | fd, os₁⟩
  · rw [hstep] at h
    rw [← (Prod.mk.inj h).2]
    exact Or.inl ((congrArg Prod.snd hstep).symm.trans (step_error (congrArg Prod.fst hstep)))
  · rw [hstep] at h
    have hcreate : os.createNew temp (openMode mode) = .ok (fd, os₁) := of_answer_eq hstep
    obtain ⟨t, os₂, hmissing, hslash, hmay, hrun, hfilled⟩ := createNew_fills hcreate bytes
    have hrest : run Os.step (fillFile fd temp bytes mode >>= fun _ => Act.rename temp path >>=
        Act.ioContext (str "failed to rename " ++ temp.display ++ str " to " ++ path.display)) os₁ =
          (.error err, os') := h
    rw [run_bind, hrun] at hrest
    simp only [run_bind, Act.rename, run_ask] at hrest
    rcases hstep' : Os.step (.rename temp path) os₂ with ⟨e | u, os₃⟩
    · rw [hstep'] at hrest
      have hsame : os₃ = os₂ := (congrArg Prod.snd hstep').symm.trans (step_error (congrArg Prod.fst hstep'))
      rw [← (Prod.mk.inj hrest).2, hsame]
      exact Or.inr ⟨t, hmissing, hslash, hmay, _, bytes, hfilled⟩
    · rw [hstep'] at hrest
      cases hrest

/-- An atomic write that fails leaves nothing new. -/
theorem writeAtomicFile_failed {env : FsEnv} {os os' : Os} {path : Path} {bytes : Bytes} {mode : Option ℕ}
    {err : AnyhowError} (h : run Os.step (writeAtomicFile env path bytes mode) os = (.error err, os')) :
    Less os os' := by
  unfold writeAtomicFile at h
  rw [run_bind, run_attempt] at h
  rcases hrun : run Os.step (writeThenRename (atomicTempPath env path) path bytes mode) os with ⟨r, os₁⟩
  rw [hrun] at h
  cases r with
  | ok u => cases h
  | error err =>
    rw [← (Prod.mk.inj h).2]
    exact cleanup_less (writeThenRename_failed hrun)

/-- **An atomic write that fails changes nothing, unless there was something at the
temporary name to remove.** For every state, path, content, mode and clock, and
whichever calls fail, with a write that fails after any part of its data, but the
removal at the end spared: the function returns an error, and every place is as it
was if and only if the temporary name could not have been removed beforehand. -/
theorem atomic_write_fails_cleanly_iff (env : FsEnv) (path : Path) (bytes : Bytes) (mode : Option ℕ) (os : Os)
    (faults : List (Option Fault)) {result : Except AnyhowError Unit} {s : Faulty}
    (h : run Faulty.step (writeAtomicFile env path bytes mode) ⟨os, faults, false⟩ = (result, s))
    (hfailed : s.failed = true) :
    (∃ err, result = .error err) ∧
      (SameTree os s.os ↔ ∃ kind, os.unlink (atomicTempPath env path) = .error kind) := by
  have hends := wp_iff_run.mp (wp_writeThenRename (atomicTempPath env path) path bytes mode ⟨os, faults, false⟩)
  unfold writeAtomicFile at h
  rw [run_bind, run_attempt] at h
  rcases hrun : run Faulty.step (writeThenRename (atomicTempPath env path) path bytes mode) ⟨os, faults, false⟩ with
    ⟨r, s₁⟩
  rw [hrun] at h hends
  cases r with
  | ok u =>
    obtain ⟨-, rfl⟩ := Prod.mk.inj h
    have hnot : s₁.failed = false := hends.1 u s₁ rfl
    rw [hnot] at hfailed
    cases hfailed
  | error err =>
    obtain ⟨rfl, rfl⟩ := Prod.mk.inj h
    obtain ⟨-, hleft⟩ := hends.2 err s₁ rfl
    exact ⟨⟨err, rfl⟩, cleanup_iff hleft⟩

/-! ### A file at the temporary name -/

/-- The name it is written at first. -/
def fTempName : Name := ⟨str ".f.rsdb-tmp-0", by decide⟩

/-- A file at the temporary name of `/f` at the time 0. -/
def tempFileOs : Os := Os.fresh.withLeaf [fTempName] (.file 0o600 (str "old"))

/-- A write of `new` to `/f` at the time 0, and which calls fail. -/
def faultyWrite (os : Os) (faults : List (Option Fault)) : Except AnyhowError Unit × Faulty :=
  run Faulty.step (writeAtomicFile blindEnv (.ofStr (str "/f")) (str "new") none) ⟨os, faults, false⟩

/-- The write does not replace the file, and its cleanup removes it. -/
theorem atomic_write_removes_file :
    (faultyWrite tempFileOs []).2.failed = true ∧ (faultyWrite tempFileOs []).1.isOk = false ∧
      ¬ SameTree tempFileOs (faultyWrite tempFileOs []).2.os := by
  refine ⟨by decide +kernel, by decide +kernel, fun hsame => ?_⟩
  have hview := hsame.view [fTempName]
  revert hview
  decide +kernel

/-- The second call, the write, fails after one byte. -/
def noSpace : List (Option Fault) := [none, some ⟨⟨.other, str "no space"⟩, 1⟩]

/-- Nothing is left of a write that fails after one byte. -/
theorem atomic_write_fails_cleanly_fresh :
    (∃ err, (faultyWrite .fresh noSpace).1 = .error err) ∧
      (SameTree .fresh (faultyWrite .fresh noSpace).2.os ↔
        ∃ kind, Os.fresh.unlink (atomicTempPath blindEnv (.ofStr (str "/f"))) = .error kind) :=
  have hrun : run Faulty.step (writeAtomicFile blindEnv (.ofStr (str "/f")) (str "new") none)
      ⟨.fresh, noSpace, false⟩ = ((faultyWrite .fresh noSpace).1, (faultyWrite .fresh noSpace).2) := by
    rw [Prod.mk.eta, faultyWrite]
  atomic_write_fails_cleanly_iff blindEnv (.ofStr (str "/f")) (str "new") none .fresh noSpace hrun (by decide +kernel)

end Daemon

end Rsdb
