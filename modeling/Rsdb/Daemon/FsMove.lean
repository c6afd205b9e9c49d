/-
# The daemon's `fs.move`

`handle_fs_move` looks at both paths, removes what is at the destination if it
may, and renames. The destination is gone before it is known whether the rename
can succeed: `fs_move_atomic_iff` says exactly when a move that fails by its
checks or by the rename leaves everything as it was, and one that succeeds moves
the source and nothing else.
-/
import Rsdb.Daemon.FsStat
import Rsdb.Os.RemoveDirAll

namespace Rsdb

open Prog (run run_bind run_attempt)

namespace Daemon

/-- The checks of `handle_fs_move`: both paths, and what is at the destination. -/
def moveChecks (source destination : Str) (overwrite : Bool) : Act (Path × Path × Option Metadata) := do
  let sourcePath ← .ofExcept (validateFsPath source)
  let destinationPath ← .ofExcept (validateFsPath destination)
  let _ ← Act.ioContext (str "failed to stat " ++ sourcePath.display) (← Act.lstat sourcePath)
  let existing ← existingMetadata destinationPath
  if existing.isSome ∧ overwrite = false then
    .fail (preconditionFailed (str "destination already exists: " ++ destinationPath.display))
  else pure (sourcePath, destinationPath, existing)

section

variable (depth : ℕ)

/-- `remove_dir_all` or `remove_file`, after what is there. -/
def removePath (path : Path) (metadata : Metadata) : IoAct Unit :=
  if metadata.isDir then IoAct.removeDirAll depth path else IoAct.call (.unlink path)

/-- What is at the destination is removed. -/
def removeDestination (destinationPath : Path) : Option Metadata → Act Unit
  | none => pure ()
  | some metadata => do
    Act.ioContext (str "failed to remove " ++ destinationPath.display)
      (← (Prog.attempt (removePath depth destinationPath metadata) : Act (Except IoError Unit)))

/-- `fs.move`: the checks, the removal of what is in the way, and the rename. -/
def handleFsMove (source destination : Str) (overwrite : Bool) : Act AgentFsMoveResult := do
  let (sourcePath, destinationPath, existing) ← moveChecks source destination overwrite
  removeDestination depth destinationPath existing
  Act.ioContext (str "failed to move " ++ sourcePath.display ++ str " to " ++ destinationPath.display)
    (← Prog.ask (Call.rename sourcePath destinationPath))
  pure ⟨sourcePath.display, destinationPath.display, existing.isSome⟩

end

/-! ### What a move should do -/

/-- What was at `src` is at `dst`, `src` is empty, and nothing changed elsewhere. -/
structure MovedTo (os os' : Os) (src dst : Loc) : Prop extends Os.SameProcess os os' where
  here : ∀ k, os'.view (dst ++ k) = os.view (src ++ k)
  gone : src ≠ dst → ∀ k, os'.view (src ++ k) = none
  elsewhere : ∀ k, ¬ src <+: k → ¬ dst <+: k → os'.view k = os.view k

/-- From where the source path leads to where the destination path does. -/
def Moved (os os' : Os) (source destination : Path) : Prop :=
  ∃ src obj found, os.lookup false source = .ok (src, obj) ∧ os.resolve destination.slash destination = .ok found ∧
    MovedTo os os' src found.loc

/-- The error is one of the removal. -/
def RemovalFails (depth : ℕ) (source destination : Str) (overwrite : Bool) (os : Os) : Prop :=
  ∃ sourcePath destinationPath existing os₁ err os₂,
    run Os.step (moveChecks source destination overwrite) os = (.ok (sourcePath, destinationPath, existing), os₁) ∧
      run Os.step (removeDestination depth destinationPath existing) os₁ = (.error err, os₂)

/-- A move that fails by its own checks or by the rename changes nothing, and
one that succeeds moves the source and nothing else. -/
def MoveAtomic (depth : ℕ) (source destination : Str) (overwrite : Bool) (os : Os) : Prop :=
  match run Os.step (handleFsMove depth source destination overwrite) os with
  | (.ok _, os') => Moved os os' (.ofStr source) (.ofStr destination)
  | (.error _, os') => RemovalFails depth source destination overwrite os ∨ os' = os

/-! ### When it does -/

/-- The move passes its checks with something at the destination. -/
def Overwrites (source destination : Str) (overwrite : Bool) (os : Os) (dst : Loc) (obj : Obj) : Prop :=
  source ≠ [] ∧ destination ≠ [] ∧ (∃ found, os.lookup false (.ofStr source) = .ok found) ∧
    os.lookup false (.ofStr destination) = .ok (dst, obj) ∧ overwrite = true

/-- What is at the destination can be removed: a directory with everything in
it, where the path can be given to `rmdir` once it is empty or is not found any
more. -/
def Removable (os : Os) (destination : Path) (dst : Loc) : Obj → Prop
  | .inl _ => os.mayChange dst = true
  | .inr mode => os.Emptiable dst ∧ ∀ err, (os.withDir dst mode).rmdir destination = .error err → err = .notFound

/-- With nothing at the destination the rename does what it should: the source
path still leads to something, the destination path to the empty place, which is
not inside the source, both directories may be changed, and so may the source itself
if it is a directory that goes to another one. -/
def Renames (os : Os) (source destination : Path) (dst : Loc) : Prop :=
  ∃ src obj, os.resolve false source = .ok (.entry src obj) ∧ os.resolve false destination = .ok (.missing dst) ∧
    source.fileName ≠ none ∧ source.dot = false ∧
    (obj.isLeft = true → source.slash = false ∧ destination.slash = false) ∧
    ¬ src <+: dst ∧ os.mayChange src = true ∧ os.mayChange dst = true ∧ os.mayMove src dst obj = true

/-! ### The checks -/

/-- What the checks let through, and that they change nothing. -/
theorem moveChecks_run (source destination : Str) (overwrite : Bool) (os : Os) :
    (∃ err, run Os.step (moveChecks source destination overwrite) os = (.error err, os) ∧
      ∀ dst obj, ¬ Overwrites source destination overwrite os dst obj) ∨
    (run Os.step (moveChecks source destination overwrite) os = (.ok (.ofStr source, .ofStr destination, none), os) ∧
      os.lookup false (.ofStr destination) = .error .notFound) ∨
    ∃ dst obj, Overwrites source destination overwrite os dst obj ∧
      run Os.step (moveChecks source destination overwrite) os =
        (.ok (.ofStr source, .ofStr destination, some (os.metadata dst obj)), os) := by
  have hvalid : ∀ p : Str, p ≠ [] → validateFsPath p = .ok (.ofStr p) := fun p hp => if_neg hp
  rcases eq_or_ne source [] with rfl | hsource
  · exact Or.inl ⟨_, rfl, fun _ _ hov => hov.1 rfl⟩
  rcases eq_or_ne destination [] with rfl | hdestination
  · refine Or.inl ⟨invalidRequest (str "path must not be empty"), ?_, fun _ _ hov => hov.2.1 rfl⟩
    rw [moveChecks, hvalid source hsource]
    rfl
  have hlstat : run Os.step (moveChecks source destination overwrite) os =
      run Os.step (Act.ioContext (str "failed to stat " ++ (Path.ofStr source).display)
        (((os.lookup false (.ofStr source)).map fun r => os.metadata r.1 r.2).mapError IoErrorKind.toError) >>= fun _ =>
          existingMetadata (.ofStr destination) >>= fun existing =>
            if existing.isSome ∧ overwrite = false then
              .fail (preconditionFailed (str "destination already exists: " ++ (Path.ofStr destination).display))
            else pure (Path.ofStr source, Path.ofStr destination, existing)) os := by
    rw [moveChecks, hvalid source hsource, hvalid destination hdestination]
    show run Os.step (.call (.lstat _) _) os = _
    rw [Prog.run_call, Os.step_lstat]
    rfl
  rw [hlstat]
  cases hs : os.lookup false (.ofStr source) with
  | error kind =>
    refine Or.inl ⟨_, rfl, fun _ _ hov => ?_⟩
    obtain ⟨-, -, ⟨found, hfound⟩, -⟩ := hov
    rw [hs] at hfound
    cases hfound
  | ok found =>
    show (∃ err, run Os.step (existingMetadata (.ofStr destination) >>= _) os = _ ∧ _) ∨
      (run Os.step (existingMetadata (.ofStr destination) >>= _) os = _ ∧ _) ∨
        ∃ dst obj, _ ∧ run Os.step (existingMetadata (.ofStr destination) >>= _) os = _
    simp only [run_bind, run_existingMetadata]
    cases hd : os.lookup false (.ofStr destination) with
    | error kind =>
      by_cases hkind : kind = .notFound
      · subst hkind
        exact Or.inr (Or.inl ⟨rfl, rfl⟩)
      · simp only [if_neg hkind]
        refine Or.inl ⟨_, rfl, fun _ _ hov => ?_⟩
        rw [hov.2.2.2.1] at hd
        cases hd
    | ok found' =>
      cases overwrite with
      | false =>
        exact Or.inl ⟨_, rfl, fun _ _ hov => by cases hov.2.2.2.2⟩
      | true =>
        exact Or.inr (Or.inr ⟨found'.1, found'.2, ⟨hsource, hdestination, ⟨found, hs⟩, hd, rfl⟩, rfl⟩)

/-! ### The rename -/

/-- Where the source and the destination lie apart, a rename in what is left of
the tree moves what was at the source. -/
theorem movedTo_moveTree {os os₁ : Os} {src dst : Loc} {obj : Obj} (hless : Os.Less os os₁)
    (hv : os₁.view src = some obj) (hsrc : ¬ src <+: dst) (hdst : ¬ dst <+: src) (hmay : os₁.mayChange dst = true)
    (hsame : ∀ k, ¬ dst <+: k → os₁.view k = os.view k) : MovedTo os (os₁.moveTree src dst) src dst := by
  obtain ⟨hprocess, hview⟩ := Os.view_moveTree hv hsrc hdst hmay
  have hapart : ∀ k, ¬ dst <+: src ++ k := by
    intro k hpre
    rcases List.prefix_or_prefix_of_prefix hpre (List.prefix_append src k) with h | h
    · exact hdst h
    · exact hsrc h
  refine ⟨hless.toSameProcess.trans hprocess, fun k => ?_, fun _ k => ?_, fun k hk hk' => ?_⟩
  · rw [hview, if_pos (List.prefix_append dst k), List.drop_left, hsame _ (hapart k)]
  · rw [hview, if_neg (hapart k), if_pos (List.prefix_append src k)]
  · rw [hview, if_neg hk', if_neg hk, hsame k hk']

/-- Onto an empty place, with nothing removed before. -/
theorem moved_of_rename {os os' : Os} {source destination : Path} (h : os.rename source destination = .ok os')
    (hmissing : os.lookup false destination = .error .notFound) : Moved os os' source destination := by
  obtain ⟨src, obj, found, hs, hd, -, -, hslash, hkind, hcase⟩ := Os.rename_eq_ok h
  have hv : os.view src = some obj := Os.resolve_sound hs
  have hfound : ∀ l obj', found ≠ .entry l obj' := by
    rintro l obj' rfl
    rw [Os.lookup_of_resolve hd fun hleft => (hslash (hkind l obj' rfl hleft)).2] at hmissing
    cases hmissing
  obtain ⟨dst, rfl⟩ : ∃ dst, found = .missing dst := by
    cases found with
    | entry l obj' => exact absurd rfl (hfound l obj')
    | missing dst => exact ⟨dst, rfl⟩
  refine ⟨src, obj, .missing dst, Os.lookup_of_resolve hs fun hleft => (hslash hleft).1, ?_, ?_⟩
  · rw [Os.resolve_follow fun l target heq => ?_, hd]
    rw [hd] at heq
    cases heq
  · obtain ⟨hsame, -⟩ | ⟨hsrc, hdst, -, hmay, -, rfl⟩ := hcase
    · have hnone : os.view dst = none := (Os.resolve_sound hd).1
      rw [show src = dst from hsame, hnone] at hv
      cases hv
    · exact movedTo_moveTree ⟨Os.SameProcess.refl os, fun _ => Or.inl rfl⟩ hv hsrc hdst hmay fun _ _ => rfl

/-- A move whose removal succeeds is as atomic as its rename. -/
theorem moveAtomic_of_removed {depth : ℕ} {source destination : Str} {overwrite : Bool} {os os₁ : Os}
    {sourcePath destinationPath : Path} {existing : Option Metadata}
    (hchecks : run Os.step (moveChecks source destination overwrite) os =
      (.ok (sourcePath, destinationPath, existing), os))
    (hremoval : run Os.step (removeDestination depth destinationPath existing) os = (.ok (), os₁)) :
    MoveAtomic depth source destination overwrite os ↔
      (∀ os', os₁.rename sourcePath destinationPath = .ok os' → Moved os os' (.ofStr source) (.ofStr destination)) ∧
        ∀ err, os₁.rename sourcePath destinationPath = .error err → os₁ = os := by
  have hfails : ¬ RemovalFails depth source destination overwrite os := by
    rintro ⟨_, _, _, _, err, _, hchecks', hremoval'⟩
    rw [hchecks] at hchecks'
    cases hchecks'
    rw [hremoval] at hremoval'
    cases hremoval'
  have hrun : run Os.step (handleFsMove depth source destination overwrite) os =
      run Os.step (Act.ioContext (str "failed to move " ++ sourcePath.display ++ str " to " ++ destinationPath.display)
        (os₁.done (os₁.rename sourcePath destinationPath)).1 >>= fun _ =>
          pure ⟨sourcePath.display, destinationPath.display, existing.isSome⟩)
        (os₁.done (os₁.rename sourcePath destinationPath)).2 := by
    rw [handleFsMove, run_bind, hchecks]
    simp only
    rw [run_bind, hremoval]
    rfl
  rw [MoveAtomic, hrun]
  cases os₁.rename sourcePath destinationPath with
  | ok os' => simp [Os.done, Act.ioContext]
  | error kind => simp [Os.done, Act.ioContext, hfails]

/-! ### What the removal leaves -/

theorem without_withDir {os : Os} {l : Loc} {mode : ℕ} (hv : os.view l = some (.inr mode)) :
    Os.Without (fun k => l <+: k ∧ k ≠ l) os (os.withDir l mode) := by
  have hview : ∀ k, (os.withDir l mode).view k =
      if l <+: k then (DirTree.dir mode [] : Tree).view (k.drop l.length) else os.view k := by
    intro k
    show (os.tree.put l (some (.dir mode []))).view k = _
    rcases eq_or_ne l [] with rfl | hl
    · rw [DirTree.put_nil, if_pos List.nil_prefix]
      rfl
    · rw [DirTree.view_put _ os.ordered hl ((Os.room_of_view hv).resolve_left hl)]
      by_cases hk : l <+: k
      · rw [if_pos hk, if_pos hk, Option.bind_some]
      · rw [if_neg hk, if_neg hk]
        rfl
  refine ⟨⟨rfl, rfl, rfl, rfl⟩, fun k hk => ?_, fun k hk => ?_⟩
  · obtain ⟨⟨t, rfl⟩, hne⟩ := hk
    obtain ⟨n, t, rfl⟩ := List.exists_cons_of_ne_nil (show t ≠ [] from fun h => hne (by rw [h, List.append_nil]))
    rw [hview, if_pos (List.prefix_append _ _), List.drop_left]
    rfl
  · rw [hview]
    split
    · rename_i hpre
      obtain rfl : k = l := by
        by_contra hne
        exact hk ⟨hpre, hne⟩
      rw [List.drop_length, hv]
      rfl
    · rfl

/-- The removal takes away the destination, or only empties it because its path
is not found any more. -/
def Cleared (os os₁ : Os) (destination : Path) (dst : Loc) (obj : Obj) : Prop :=
  (Os.Without (dst <+: ·) os os₁ ∧ os.resolve false destination = .ok (.entry dst obj)) ∨
    (Os.Without (fun k => dst <+: k ∧ k ≠ dst) os os₁ ∧ ∀ l obj', os₁.resolve false destination ≠ .ok (.entry l obj'))

/-- What the removal of a directory comes to, when it has been emptied. -/
theorem run_rmdir_emptied {os os₁ : Os} {destination : Path} {dst : Loc} {mode : ℕ}
    (hd : os.lookup false destination = .ok (dst, .inr mode))
    (hw : Os.Without (fun k => dst <+: k ∧ k ≠ dst) os os₁) :
    ((∀ err, (os.withDir dst mode).rmdir destination = .error err → err = .notFound) →
      ∃ os₂, run Os.step (IoAct.ignoreNotFound (IoAct.call (.rmdir destination))) os₁ = (.ok (), os₂) ∧
        Cleared os os₂ destination dst (.inr mode)) ∧
    (¬ (∀ err, (os.withDir dst mode).rmdir destination = .error err → err = .notFound) →
      ∃ err, run Os.step (IoAct.ignoreNotFound (IoAct.call (.rmdir destination))) os₁ = (.error err, os₁)) := by
  obtain ⟨-, hv, -⟩ := Os.lookup_eq_ok hd
  have hsame := Os.rmdir_congr ((without_withDir hv).sameTree hw) destination
  have hcall : run Os.step (IoAct.call (.rmdir destination)) os₁ = os₁.done (os₁.rmdir destination) :=
    IoAct.run_call _ _
  have hrun := Os.run_ignoreNotFound (IoAct.call (.rmdir destination)) os₁
  rw [hcall] at hrun
  cases hrmdir : os₁.rmdir destination with
  | ok os₂ =>
    rw [hrmdir] at hsame hrun
    have hok : ∀ err, (os.withDir dst mode).rmdir destination ≠ .error err := by
      intro err herr
      rw [herr] at hsame
      cases hsame
    refine ⟨fun _ => ⟨os₂, hrun, Or.inl ?_⟩, fun hnot => absurd (fun err herr => absurd herr (hok err)) hnot⟩
    obtain ⟨l, m, hr, hw'⟩ := Os.rmdir_eq_ok hrmdir
    have hr' := Os.resolve_less hw.less (by simp) hr
    have hl := Os.lookup_of_resolve hr' (by simp)
    rw [hd] at hl
    obtain ⟨rfl, hm⟩ := Prod.mk.inj (Except.ok.inj hl)
    obtain rfl := Sum.inr.inj hm
    refine ⟨(hw.trans hw').widen ?_ ?_, hr'⟩
    · rintro k (⟨hpre, -⟩ | hpre) <;> exact hpre
    · exact fun k hk hnot => absurd (Or.inr hk) hnot
  | error kind =>
    rw [hrmdir] at hsame hrun
    have hkind : ∀ err, (os.withDir dst mode).rmdir destination = .error err ↔ err = kind := by
      intro err
      cases h : (os.withDir dst mode).rmdir destination with
      | ok _ =>
        rw [h] at hsame
        cases hsame
      | error e =>
        rw [h] at hsame
        rw [← Except.error.inj hsame]
        constructor
        · intro heq
          exact (Except.error.inj heq).symm
        · rintro rfl
          rfl
    refine ⟨fun hall => ⟨os₁, ?_, Or.inr ⟨hw, ?_⟩⟩, fun hnot => ⟨kind.toError, ?_⟩⟩
    · rw [hrun, hall kind ((hkind kind).mpr rfl)]
      rfl
    · rw [hall kind ((hkind kind).mpr rfl)] at hrmdir
      exact Os.rmdir_notFound hrmdir
    · have hne : kind ≠ .notFound := fun h => hnot fun err herr => ((hkind err).mp herr).trans h
      rw [hrun]
      show (if kind = .notFound then _ else _) = _
      rw [if_neg hne]

/-- The removal succeeds where the destination can be removed, and only there. -/
theorem removeDestination_run {depth : ℕ} {os : Os} {destination : Path} {dst : Loc} {obj : Obj}
    (hdepth : os.Shallow [] depth) (hd : os.lookup false destination = .ok (dst, obj)) :
    (Removable os destination dst obj → ∃ os₁,
      run Os.step (removeDestination depth destination (some (os.metadata l obj))) os = (.ok (), os₁) ∧
        Cleared os os₁ destination dst obj) ∧
    (¬ Removable os destination dst obj → ∃ err os₁,
      run Os.step (removeDestination depth destination (some (os.metadata l obj))) os = (.error err, os₁)) := by
  have hok : ∀ {os₁}, run Os.step (removePath depth destination (os.metadata l obj)) os = (.ok (), os₁) →
      run Os.step (removeDestination depth destination (some (os.metadata l obj))) os = (.ok (), os₁) := by
    intro os₁ h
    rw [removeDestination, run_bind, run_attempt, h]
    rfl
  have herror : ∀ {err os₁}, run Os.step (removePath depth destination (os.metadata l obj)) os = (.error err, os₁) →
      ∃ err' os₁, run Os.step (removeDestination depth destination (some (os.metadata l obj))) os = (.error err', os₁) := by
    intro err os₁ h
    refine ⟨(AnyhowError.ofIo err).context (str "failed to remove " ++ destination.display), os₁, ?_⟩
    rw [removeDestination, run_bind, run_attempt, h]
    rfl
  cases obj with
  | inl leaf =>
    have hslash := Os.slash_of_lookup_leaf hd
    obtain ⟨hr, -, -⟩ := Os.lookup_eq_ok hd
    rw [hslash] at hr
    have hpath : removePath depth destination (os.metadata l (.inl leaf)) = IoAct.call (.unlink destination) := by
      cases leaf <;> rfl
    have hrun : run Os.step (removePath depth destination (os.metadata l (.inl leaf))) os =
        os.done (os.unlink destination) := by
      rw [hpath]
      exact IoAct.run_call _ _
    have hunlink := Os.unlink_leaf hr hslash
    split at hunlink
    · rename_i hmay
      obtain ⟨os₁, hunlink, hw⟩ := hunlink
      rw [hunlink] at hrun
      exact ⟨fun _ => ⟨os₁, hok hrun, Or.inl ⟨hw, hr⟩⟩, fun hnot => absurd hmay hnot⟩
    · rename_i hmay
      rw [hunlink] at hrun
      exact ⟨fun h => absurd h hmay, fun _ => herror hrun⟩
  | inr mode =>
    have hshallow : os.Shallow dst depth := by
      intro k obj hk
      have hlt := hdepth (dst ++ k) obj hk
      rw [List.length_append] at hlt
      omega
    obtain ⟨hemptied, hdenied⟩ := Os.removeDirAll_run hd hshallow
    by_cases hemptiable : os.Emptiable dst
    · obtain ⟨os', hw, hrun⟩ := hemptied hemptiable
      obtain ⟨hdone, hfailed⟩ := run_rmdir_emptied hd hw
      refine ⟨fun hremovable => ?_, fun hnot => ?_⟩
      · obtain ⟨os₁, hrmdir, hcleared⟩ := hdone hremovable.2
        exact ⟨os₁, hok (hrun.trans hrmdir), hcleared⟩
      · obtain ⟨err, hrmdir⟩ := hfailed fun h => hnot ⟨hemptiable, h⟩
        exact herror (hrun.trans hrmdir)
    · obtain ⟨err, os₁, hrun⟩ := hdenied hemptiable
      exact ⟨fun h => absurd h.1 hemptiable, fun _ => herror hrun⟩

/-! ### The rename after it -/

section

variable {os os₁ : Os} (source : Path) {destination : Path} {dst : Loc} {obj : Obj}

/-- With the destination gone, the rename succeeds where `Renames` says so, and
then moves the source. -/
theorem rename_of_gone (hd : os.lookup false destination = .ok (dst, obj)) (hw : Os.Without (dst <+: ·) os os₁)
    (hr : os.resolve false destination = .ok (.entry dst obj)) :
    (Renames (os.put dst none) source destination dst ↔ ∃ os', os₁.rename source destination = .ok os') ∧
      ∀ os', os₁.rename source destination = .ok os' → Moved os os' source destination := by
  have hv : os.view dst = some obj := Os.resolve_sound hr
  -- the rename has to find the empty place, and to move something
  have hinv : ∀ os', os₁.rename source destination = .ok os' → ∃ src obj', os₁.resolve false source = .ok (.entry src obj') ∧
      os₁.resolve false destination = .ok (.missing dst) ∧ source.fileName ≠ none ∧ source.dot = false ∧
      (obj'.isLeft = true → source.slash = false ∧ destination.slash = false) ∧ ¬ src <+: dst ∧ ¬ dst <+: src ∧
      os₁.mayChange src = true ∧ os₁.mayChange dst = true ∧ os₁.mayMove src dst obj' = true ∧
      os' = os₁.moveTree src dst := by
    intro os' h
    obtain ⟨src, obj', found, hs, hfound, hname, hdot, hslash, -, hcase⟩ := Os.rename_eq_ok h
    obtain rfl : found = .missing dst := by
      cases found with
      | entry l o =>
        have heq := Os.resolve_less hw.less (by simp) hfound
        rw [hr] at heq
        cases heq
        have hview : os₁.view dst = some obj := Os.resolve_sound hfound
        rw [hw.taken dst List.prefix_rfl] at hview
        cases hview
      | missing l =>
        obtain ⟨hnone, dir, name, mode, rfl, hdir, -⟩ := Os.resolve_sound hfound
        have hthere : os.view (dir ++ [name]) ≠ none := by
          intro hno
          have heq := Os.resolve_less hw.less (fun k hk => by cases hk; exact hno) hfound
          rw [hr] at heq
          cases heq
        have hpre : dst <+: dir ++ [name] := by
          by_contra hpre
          exact hthere (hw.kept _ hpre ▸ hnone)
        rcases List.prefix_concat_iff.mp hpre with rfl | hpre
        · rfl
        · rw [hw.taken dir hpre] at hdir
          cases hdir
    have hview : os₁.view src = some obj' := Os.resolve_sound hs
    obtain ⟨hsame, -⟩ | ⟨hsrc, hdst, hmay, hmay', hmove, rfl⟩ := hcase
    · rw [show src = dst from hsame, hw.taken dst List.prefix_rfl] at hview
      cases hview
    · exact ⟨src, obj', hs, hfound, hname, hdot, hslash, hsrc, hdst, hmay, hmay', hmove, rfl⟩
  have hmoved : ∀ os', os₁.rename source destination = .ok os' → Moved os os' source destination := by
    intro os' h
    obtain ⟨src, obj', hs, -, -, -, hslash, hsrc, hdst, -, hmay, -, rfl⟩ := hinv os' h
    refine ⟨src, obj', .entry dst obj, ?_, ?_, ?_⟩
    · exact Os.lookup_of_resolve (Os.resolve_less hw.less (by simp) hs) fun hleft => (hslash hleft).1
    · obtain ⟨hlookup, -, -⟩ := Os.lookup_eq_ok hd
      rwa [Bool.false_or] at hlookup
    · exact movedTo_moveTree hw.less (Os.resolve_sound hs) hsrc hdst hmay hw.kept
  have hgone : dst ≠ [] → Os.SameTree (os.put dst none) os₁ := fun hne => (Os.without_put hne hv).sameTree hw
  refine ⟨⟨?_, ?_⟩, hmoved⟩
  · rintro ⟨src, obj', hs, hmiss, hname, hdot, hslash, hsrc, hmay, hmay', hmove⟩
    have hne : dst ≠ [] := by
      rintro rfl
      have hnone : os.view [] = none := (Os.resolve_sound hmiss).1
      rw [hv] at hnone
      cases hnone
    have hsame := hgone hne
    refine ⟨os₁.moveTree src dst, Os.rename_missing ?_ ?_ hname hdot hslash hsrc ?_ ?_ ?_⟩
    · rw [hsame.resolve, hs]
    · rw [hsame.resolve, hmiss]
    · rw [hsame.mayChange, hmay]
    · rw [hsame.mayChange, hmay']
    · rw [hsame.toSameProcess.mayMove, hmove]
  · rintro ⟨os', h⟩
    obtain ⟨src, obj', hs, hmiss, hname, hdot, hslash, hsrc, -, hmay, hmay', hmove, -⟩ := hinv os' h
    have hne : dst ≠ [] := by
      rintro rfl
      have hview : os₁.view src = some obj' := Os.resolve_sound hs
      rw [hw.taken src List.nil_prefix] at hview
      cases hview
    have hsame := hgone hne
    refine ⟨src, obj', ?_, ?_, hname, hdot, hslash, hsrc, ?_, ?_, ?_⟩
    · rw [← hsame.resolve, hs]
    · rw [← hsame.resolve, hmiss]
    · rw [← hsame.mayChange, hmay]
    · rw [← hsame.mayChange, hmay']
    · rw [← hsame.toSameProcess.mayMove, hmove]

/-- A place that repeats itself below has no end. -/
theorem not_shallow_of_repeat {l t : Loc} {depth : ℕ} (ht : t ≠ []) (hv : os.view l = some obj)
    (hrepeat : ∀ k, os.view (l ++ t ++ k) = os.view (l ++ k)) : ¬ os.Shallow [] depth := by
  have hdeep : ∀ n, ∃ k, n ≤ k.length ∧ os.view (l ++ k) = some obj := by
    intro n
    induction n with
    | zero => exact ⟨[], Nat.zero_le _, by rwa [List.append_nil]⟩
    | succ n ih =>
      obtain ⟨k, hlen, hk⟩ := ih
      refine ⟨t ++ k, ?_, by rw [← List.append_assoc, hrepeat, hk]⟩
      rw [List.length_append]
      have hpos := List.length_pos_iff.mpr ht
      omega
  intro hshallow
  obtain ⟨k, hlen, hk⟩ := hdeep depth
  have hlt := hshallow (l ++ k) obj hk
  rw [List.length_append] at hlt
  omega

/-- With the destination only emptied, the rename fails, or puts the source
inside the directory that is still there. -/
theorem rename_of_emptied {depth : ℕ} (hdepth : os.Shallow [] depth) (hd : os.lookup false destination = .ok (dst, obj))
    (hw : Os.Without (fun k => dst <+: k ∧ k ≠ dst) os os₁)
    (hno : ∀ l obj', os₁.resolve false destination ≠ .ok (.entry l obj')) :
    ¬ Renames (os.put dst none) source destination dst ∧ os₁ ≠ os ∧
      ∀ os', os₁.rename source destination = .ok os' → ¬ Moved os os' source destination := by
  obtain ⟨hlookup, hv, -⟩ := Os.lookup_eq_ok hd
  rw [Bool.false_or] at hlookup
  have hv₁ : os₁.view dst = some obj := by rw [hw.kept dst fun h => h.2 rfl, hv]
  have hother : ∀ {found}, os.resolve false destination = .ok found → found = .entry dst obj ∨
      ∃ l target, found = .entry l (.inl (.symlink target)) := by
    intro found hfound
    by_cases hlink : ∃ l target, found = .entry l (.inl (.symlink target))
    · exact Or.inr hlink
    · rw [Os.resolve_follow fun l target heq => ?_, hfound] at hlookup
      · exact Or.inl (Except.ok.inj hlookup)
      · rw [hfound] at heq
        exact hlink ⟨l, target, Except.ok.inj heq⟩
  refine ⟨?_, ?_, ?_⟩
  · rintro ⟨-, -, -, hmiss, -⟩
    have hne : dst ≠ [] := by
      rintro rfl
      have hnone : os.view [] = none := (Os.resolve_sound hmiss).1
      rw [hv] at hnone
      cases hnone
    have hput := Os.without_put hne hv
    have hless : Os.Less os₁ (os.put dst none) := by
      refine ⟨⟨hw.cwd.symm, hw.umask.symm, hw.privileged.symm, hw.dirSize.symm⟩, fun k => ?_⟩
      by_cases hk : dst <+: k
      · exact Or.inr (hput.taken k hk)
      · left
        rw [hput.kept k hk, hw.kept k fun h => hk h.1]
    exact hno dst obj (Os.resolve_less_found hless hv₁ hmiss)
  · rintro rfl
    rw [Os.resolve_follow fun l target => hno l _] at hlookup
    exact hno dst obj hlookup
  · rintro os' h ⟨src', obj', found', hs', hfound', hmoved⟩
    rw [hlookup] at hfound'
    obtain rfl := Except.ok.inj hfound'
    obtain ⟨src, obj'', found, hs, hfound, -, -, hslash, -, hcase⟩ := Os.rename_eq_ok h
    have hsource := Os.lookup_of_resolve (Os.resolve_less hw.less (by simp) hs) fun hleft => (hslash hleft).1
    rw [hs'] at hsource
    obtain ⟨rfl, rfl⟩ := Prod.mk.inj (Except.ok.inj hsource)
    have hsrc₁ : os₁.view src' = some obj' := Os.resolve_sound hs
    obtain ⟨l, rfl⟩ : ∃ l, found = .missing l := by
      cases found with
      | entry l o => exact absurd hfound (hno l o)
      | missing l => exact ⟨l, rfl⟩
    have hnone : os₁.view l = none := (Os.resolve_sound hfound).1
    -- the empty place is one of those that were emptied
    obtain ⟨⟨t, rfl⟩, hne⟩ : dst <+: l ∧ l ≠ dst := by
      by_contra hinside
      have hl : os.view l = none := hw.kept l hinside ▸ hnone
      rcases hother (Os.resolve_less hw.less (fun k hk => by cases hk; exact hl) hfound) with heq | ⟨_, _, heq⟩ <;> cases heq
    have ht : t ≠ [] := fun h => hne (by rw [h, List.append_nil])
    obtain ⟨hsame, -⟩ | ⟨hsrc, -, -, hmay, -, rfl⟩ := hcase
    · rw [show src' = dst ++ t from hsame, hnone] at hsrc₁
      cases hsrc₁
    · have hsrc : ¬ src' <+: dst ++ t := hsrc
      have hmay : os₁.mayChange (dst ++ t) = true := hmay
      have hnot : ¬ dst ++ t <+: src' := by
        rintro ⟨k, rfl⟩
        rw [Os.view, DirTree.view_append_eq_none hnone] at hsrc₁
        cases hsrc₁
      have hoff : ∀ k, ¬ (dst <+: src' ++ k ∧ src' ++ k ≠ dst) := by
        rintro k ⟨hpre, -⟩
        rcases List.prefix_or_prefix_of_prefix hpre (List.prefix_append src' k) with hds | hsd
        · by_cases heq : src' = dst
          · exact hsrc (heq ▸ List.prefix_append _ _)
          · rw [hw.taken src' ⟨hds, heq⟩] at hsrc₁
            cases hsrc₁
        · exact hsrc (hsd.trans (List.prefix_append _ _))
      obtain ⟨-, hview⟩ := Os.view_moveTree hsrc₁ hsrc hnot hmay
      refine not_shallow_of_repeat ht (hw.less.view_of_some hsrc₁) (fun k => ?_) hdepth
      -- the source is now found at `t` in the directory, and so `t` in the source
      have hat := hview (dst ++ t ++ k)
      rw [if_pos (List.prefix_append _ _), List.drop_left, hw.kept _ (hoff k)] at hat
      have hhere := hmoved.here (t ++ k)
      rw [show Os.Found.loc (.entry dst obj) = dst from rfl, ← List.append_assoc, ← List.append_assoc] at hhere
      exact hhere.symm.trans hat

end

/-! ### The move -/

/-- A move that passes its checks with something at the destination. -/
theorem moveAtomic_of_overwrites {depth : ℕ} {source destination : Str} {overwrite : Bool} {os : Os} {dst : Loc}
    {obj : Obj} (hdepth : os.Shallow [] depth) (hov : Overwrites source destination overwrite os dst obj)
    (hchecks : run Os.step (moveChecks source destination overwrite) os =
      (.ok (.ofStr source, .ofStr destination, some (os.metadata dst obj)), os)) :
    MoveAtomic depth source destination overwrite os ↔
      (Removable os (.ofStr destination) dst obj →
        Renames (os.put dst none) (.ofStr source) (.ofStr destination) dst) := by
  have hd := hov.2.2.2.1
  obtain ⟨hremoved, hfailed⟩ := removeDestination_run hdepth hd
  by_cases hremovable : Removable os (.ofStr destination) dst obj
  · obtain ⟨os₁, hrun, hcleared⟩ := hremoved hremovable
    rw [moveAtomic_of_removed hchecks hrun]
    rcases hcleared with ⟨hw, hr⟩ | ⟨hw, hno⟩
    · obtain ⟨hiff, hmoved⟩ := rename_of_gone (.ofStr source) hd hw hr
      have hne : os₁ ≠ os := by
        rintro rfl
        have hv : os₁.view dst = some obj := Os.resolve_sound hr
        rw [hw.taken dst List.prefix_rfl] at hv
        cases hv
      constructor
      · rintro ⟨-, hsame⟩ -
        rw [hiff]
        cases hrename : os₁.rename (.ofStr source) (.ofStr destination) with
        | ok os' => exact ⟨os', rfl⟩
        | error err => exact absurd (hsame err hrename) hne
      · intro h
        obtain ⟨os', hrename⟩ := hiff.mp (h hremovable)
        refine ⟨hmoved, fun err herr => ?_⟩
        rw [hrename] at herr
        cases herr
    · obtain ⟨hnot, hne, hmoved⟩ := rename_of_emptied (.ofStr source) hdepth hd hw hno
      constructor
      · rintro ⟨hok, hsame⟩ -
        cases hrename : os₁.rename (.ofStr source) (.ofStr destination) with
        | ok os' => exact absurd (hok os' hrename) (hmoved os' hrename)
        | error err => exact absurd (hsame err hrename) hne
      · exact fun h => absurd (h hremovable) hnot
  · obtain ⟨err, os₁, hrun⟩ := hfailed hremovable
    refine ⟨fun _ h => absurd h hremovable, fun _ => ?_⟩
    have hfails : RemovalFails depth source destination overwrite os := ⟨_, _, _, _, err, os₁, hchecks, hrun⟩
    have hmove : run Os.step (handleFsMove depth source destination overwrite) os = (.error err, os₁) := by
      rw [handleFsMove, run_bind, hchecks]
      simp only
      rw [run_bind, hrun]
    rw [MoveAtomic, hmove]
    exact Or.inl hfails

/-- **A move is atomic where it overwrites nothing, or cannot remove what is at
the destination, or can still rename without it.** -/
theorem fs_move_atomic_iff (os : Os) (source destination : Str) (overwrite : Bool) (depth : ℕ)
    (hdepth : os.Shallow [] depth) :
    MoveAtomic depth source destination overwrite os ↔
      ∀ dst obj, Overwrites source destination overwrite os dst obj → Removable os (.ofStr destination) dst obj →
        Renames (os.put dst none) (.ofStr source) (.ofStr destination) dst := by
  rcases moveChecks_run source destination overwrite os with
    ⟨err, hchecks, hnot⟩ | ⟨hchecks, hmissing⟩ | ⟨dst, obj, hov, hchecks⟩
  · refine ⟨fun _ dst obj hov => absurd hov (hnot dst obj), fun _ => ?_⟩
    have hmove : run Os.step (handleFsMove depth source destination overwrite) os = (.error err, os) := by
      rw [handleFsMove, run_bind, hchecks]
    rw [MoveAtomic, hmove]
    exact Or.inr rfl
  · refine ⟨fun _ dst obj hov => ?_, fun _ => ?_⟩
    · rw [hov.2.2.2.1] at hmissing
      cases hmissing
    · exact (moveAtomic_of_removed hchecks (Prog.run_pure Os.step () os)).mpr
        ⟨fun os' h => moved_of_rename h hmissing, fun _ _ => rfl⟩
  · rw [moveAtomic_of_overwrites hdepth hov hchecks]
    constructor
    · intro h dst' obj' hov'
      have hsame := hov'.2.2.2.1
      rw [hov.2.2.2.1] at hsame
      obtain ⟨rfl, rfl⟩ := Prod.mk.inj (Except.ok.inj hsame)
      exact h
    · exact fun h => h dst obj hov

/-- The levels of a tree, counted. -/
theorem shallow_of_preorder {os : Os} {depth : ℕ} (h : ∀ p ∈ os.tree.preorder, p.1.length < depth) :
    os.Shallow [] depth :=
  fun k obj hk => @Os.forall_view os (fun k _ => k.length < depth) h k obj hk

/-- The name of a file. -/
def aName : Name := ⟨str "a", by decide⟩

/-- The name of another. -/
def bName : Name := ⟨str "b", by decide⟩

/-- A file `/a`, and a file `/b`. -/
def twoFileOs : Os := (Os.fresh.withLeaf [aName] (.file 0o644 (str "new"))).withLeaf [bName] (.file 0o644 (str "old"))

/-- `/a` is moved onto `/b`. -/
theorem fs_move_atomic_two_files : MoveAtomic 2 (str "/a") (str "/b") true twoFileOs := by
  refine (fs_move_atomic_iff twoFileOs (str "/a") (str "/b") true 2 (shallow_of_preorder (by decide +kernel))).mpr ?_
  intro dst obj hov _
  have hd : twoFileOs.lookup false (.ofStr (str "/b")) = .ok ([bName], .inl (.file 0o644 (str "old"))) := by
    decide +kernel
  rw [hov.2.2.2.1] at hd
  obtain ⟨rfl, -⟩ := Prod.mk.inj (Except.ok.inj hd)
  exact ⟨[aName], .inl (.file 0o644 (str "new")), rfl, rfl, by decide, by decide, by decide, by decide, rfl, rfl,
    rfl⟩

/-- Moved onto itself, `/a` is lost. -/
theorem fs_move_loses_file : ¬ MoveAtomic 2 (str "/a") (str "/a") true twoFileOs := by
  have hd : twoFileOs.lookup false (.ofStr (str "/a")) = .ok ([aName], .inl (.file 0o644 (str "new"))) := by
    decide +kernel
  have hov : Overwrites (str "/a") (str "/a") true twoFileOs [aName] (.inl (.file 0o644 (str "new"))) :=
    ⟨by decide, by decide, ⟨_, hd⟩, hd, rfl⟩
  rw [moveAtomic_of_overwrites (shallow_of_preorder (by decide +kernel)) hov rfl]
  intro h
  obtain ⟨src, obj, hs, hmiss, -⟩ := h rfl
  rw [hmiss] at hs
  cases hs

end Daemon

end Rsdb
