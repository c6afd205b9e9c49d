/-
# Moves and removals among the names of a directory

Two names of a directory, however the path to it gets there. In every state on the way of
a move from one to the other, something at the destination or below it may be gone and
nothing else has changed, or the whole source is at the destination
(`throughout_handleFsMove`); where the move returns, it is. A removal of a name stays at
it (`throughout_handleFsRm`).
-/
import Rsdb.Daemon.FsOps
import Rsdb.Os.Thinned
import Rsdb.Transfer.Confined

namespace Rsdb

open Os (Leads below Outside Thinned)
open Prog (Throughout throughout_bind throughout_mono throughout_attempt)

namespace Os

/-- Whether a name may be changed depends on the directory it is in. -/
theorem mayChange_congr {os os' : Os} (hprocess : SameProcess os os') {l : Loc}
    (hview : os'.view l.dropLast = os.view l.dropLast) : os'.mayChange l = os.mayChange l := by
  unfold mayChange
  rw [hview]
  split <;> simp only [hprocess.may]

theorem not_prefix_dir {dir : Loc} (n : Name) : ¬ dir ++ [n] <+: dir := by
  intro hpre
  have hlen := hpre.length_le
  rw [List.length_append, List.length_singleton] at hlen
  omega

/-- Names of a directory are apart. -/
theorem not_prefix_name {dir : Loc} {m n : Name} (hne : m ≠ n) (k : Loc) : ¬ dir ++ [m] <+: dir ++ [n] ++ k := by
  rw [List.append_assoc, List.prefix_append_right_inj, List.singleton_append, List.cons_prefix_cons]
  exact fun hpre => hne hpre.1

end Os

namespace Daemon

section

variable {I : Os → Prop} {os s : Os}

theorem throughout_lstat (hI : I s) (p : Path) :
    Throughout Os.step I (fun answer t => t = s ∧
      answer = ((s.lookup false p).map fun found => s.metadata found.1 found.2).mapError IoErrorKind.toError) (Act.lstat p) s := by
  have hstep := Os.step_lstat s p
  refine ⟨hI, ?_⟩
  rw [hstep]
  exact ⟨hI, rfl, rfl⟩

theorem throughout_existingMetadata (hI : I s) (p : Path) :
    Throughout Os.step I (fun existing t => t = s ∧ ∀ metadata, existing = some metadata →
      ∃ l obj, s.lookup false p = .ok (l, obj) ∧ metadata = s.metadata l obj) (existingMetadata p) s := by
  refine throughout_bind (throughout_mono (fun answer t ht hanswer => ?_) (throughout_lstat hI p))
  obtain ⟨rfl, rfl⟩ := hanswer
  cases hp : t.lookup false p with
  | ok found =>
    obtain ⟨l, obj⟩ := found
    exact ⟨ht, rfl, fun metadata hmetadata => ⟨l, obj, rfl, (Option.some.inj hmetadata).symm⟩⟩
  | error e =>
    show Throughout Os.step I _ (if e.toError.kind = .notFound then _ else _) t
    split
    · exact ⟨ht, rfl, nofun⟩
    · exact ht

/-- The checks change nothing. -/
theorem throughout_moveChecks (hI : I s) (source destination : Str) (overwrite : Bool) :
    Throughout Os.step I (fun checked t => t = s ∧ checked.1 = .ofStr source ∧ checked.2.1 = .ofStr destination ∧
      ∀ metadata, checked.2.2 = some metadata →
        ∃ l obj, s.lookup false (.ofStr destination) = .ok (l, obj) ∧ metadata = s.metadata l obj)
      (moveChecks source destination overwrite) s := by
  have hvalid : ∀ {path : Str} {p : Path}, validateFsPath path = .ok p → p = .ofStr path := by
    intro path p h
    unfold validateFsPath at h
    split at h
    · cases h
    · exact (Except.ok.inj h).symm
  unfold moveChecks
  cases hsource : validateFsPath source with
  | error err => exact hI
  | ok sourcePath =>
    cases hdestination : validateFsPath destination with
    | error err => exact hI
    | ok destinationPath =>
      obtain rfl := hvalid hsource
      obtain rfl := hvalid hdestination
      show Throughout Os.step I _ (Act.lstat (.ofStr source) >>= _) s
      refine throughout_bind (throughout_mono (fun answer t ht hanswer => ?_) (throughout_lstat hI _))
      obtain ⟨rfl, -⟩ := hanswer
      cases answer with
      | error err => exact ht
      | ok metadata =>
        show Throughout Os.step I _ (existingMetadata (.ofStr destination) >>= _) t
        refine throughout_bind (throughout_mono (fun existing t' ht' hexisting => ?_) (throughout_existingMetadata ht _))
        obtain ⟨rfl, hthere⟩ := hexisting
        split
        · exact ht'
        · exact ⟨ht', rfl, rfl, rfl, hthere⟩

/-- What is removed of a path stays at its place. -/
theorem throughout_removePath (depth : ℕ) {p : Path} {l : Loc} {obj : Obj} (hp : os.lookup false p = .ok (l, obj)) :
    Throughout Os.step (Thinned l os) (fun _ _ => True) (removePath depth p (os.metadata l obj)) os := by
  unfold removePath
  split
  · exact Os.throughout_removeDirAll depth hp
  · have hstart := Thinned.refl l os
    exact throughout_mono (fun _ _ _ _ => trivial)
      (Os.throughout_ioCall (Thinned l os) hstart (Os.thinned_unlink hstart hp))

end

/-! ### Two names of one directory -/

section

variable {os : Os} {base base' : Path} {dir : Loc} {x y : Name}

/-- In the state after, the object is at the other name, whose directory may be changed. -/
def Swapped (os : Os) (dir : Loc) (y x : Name) (t : Os) : Prop :=
  MovedTo os t (dir ++ [y]) (dir ++ [x]) ∧ os.mayChange (dir ++ [x]) = true

/-- What a move may have come to anywhere on its way. -/
def Moving (os : Os) (dir : Loc) (y x : Name) (t : Os) : Prop := Thinned (dir ++ [x]) os t ∨ Swapped os dir y x t

/-- The rename that follows a removal. -/
theorem swapped_of_rename {t after : Os} (hne : y ≠ x) (hthinned : Thinned (dir ++ [x]) os t) (hleads : Leads t base dir)
    (hleads' : Leads t base' dir) (h : t.rename (below base' [y]) (below base [x]) = .ok after) :
    Swapped os dir y x after := by
  obtain ⟨src, obj, found, hs, hd, -, -, -, -, hcase⟩ := Os.rename_eq_ok h
  obtain rfl : src = dir ++ [y] := Os.resolve_below_name hleads' hs
  have hfound : found.loc = dir ++ [x] := Os.resolve_below_name hleads hd
  rw [hfound] at hcase
  rcases hcase with ⟨hsame, -⟩ | ⟨hsrc, hdst, -, hmay, -, rfl⟩
  · have hnames := List.append_cancel_left hsame
    exact absurd (List.cons.inj hnames).1 hne
  · refine ⟨movedTo_moveTree hthinned.toLess (Os.resolve_sound hs) hsrc hdst hmay hthinned.elsewhere, ?_⟩
    have hdir : t.view (dir ++ [x]).dropLast = os.view (dir ++ [x]).dropLast := by
      rw [List.dropLast_concat]
      exact hthinned.elsewhere dir (Os.not_prefix_dir x)
    rwa [← Os.mayChange_congr hthinned.toSameProcess hdir]

/-- **A move removes and then renames.** -/
theorem throughout_handleFsMove (depth : ℕ) {source destination : Str} (hsource : Path.ofStr source = below base' [y])
    (hdestination : Path.ofStr destination = below base [x]) (hne : y ≠ x)
    (hleads : ∀ t, Outside (dir ++ [x] <+: ·) os t → Leads t base dir)
    (hleads' : ∀ t, Outside (dir ++ [x] <+: ·) os t → Leads t base' dir) (overwrite : Bool) :
    Throughout Os.step (Moving os dir y x) (fun _ t => Swapped os dir y x t)
      (handleFsMove depth source destination overwrite) os := by
  have hstart : Moving os dir y x os := Or.inl (Thinned.refl _ os)
  have hhere := hleads os ⟨Os.SameProcess.refl os, fun _ _ => rfl⟩
  refine throughout_bind (throughout_mono (fun checked t ht hchecked => ?_) (throughout_moveChecks hstart _ _ overwrite))
  obtain ⟨sourcePath, destinationPath, existing⟩ := checked
  obtain ⟨rfl, hs, hd, hthere⟩ := hchecked
  simp only at hs hd hthere ⊢
  rw [hsource] at hs
  rw [hdestination] at hd hthere
  subst hs
  subst hd
  have hremoved : Throughout Os.step (Thinned (dir ++ [x]) t) (fun _ _ => True)
      (removeDestination depth (below base [x]) existing) t := by
    cases existing with
    | none => exact ⟨Thinned.refl _ t, trivial⟩
    | some metadata =>
      obtain ⟨l, obj, hp, rfl⟩ := hthere metadata rfl
      obtain rfl := Os.lookup_below_name hhere hp
      exact throughout_bind (throughout_mono (fun result _ h _ => throughout_mono (fun _ _ _ _ => trivial)
        (throughout_ioContext h _ result)) (throughout_attempt (throughout_removePath depth hp)))
  have hpart : Throughout Os.step (Thinned (dir ++ [x]) t) (fun _ => Thinned (dir ++ [x]) t)
      (removeDestination depth (below base [x]) existing) t := throughout_mono (fun _ _ h _ => h) hremoved
  refine throughout_bind (throughout_mono (fun _ t' ht' hthinned => ?_) (hpart.weaken fun _ h => Or.inl h))
  have hafter := hleads t' hthinned.outside
  have hafter' := hleads' t' hthinned.outside
  have hstep : Os.step (.rename (below base' [y]) (below base [x])) t' =
      t'.done (t'.rename (below base' [y]) (below base [x])) := rfl
  refine ⟨ht', ?_⟩
  rw [hstep]
  cases hrename : t'.rename (below base' [y]) (below base [x]) with
  | error e => exact ht'
  | ok after =>
    have hswapped := swapped_of_rename hne hthinned hafter hafter' hrename
    exact ⟨Or.inr hswapped, hswapped⟩

/-- **A removal stays at the name it is asked for.** -/
theorem throughout_handleFsRm (env : FsEnv) {path : Str} (hpath : Path.ofStr path = below base [y])
    (hleads : Leads os base dir) (recursive force ifExists : Bool) :
    Throughout Os.step (Thinned (dir ++ [y]) os) (fun _ _ => True)
      (handleFsRm env path recursive force ifExists) os := by
  have hstart := Thinned.refl (dir ++ [y]) os
  unfold handleFsRm
  cases hvalid : validateFsPath path with
  | error err => exact hstart
  | ok requested =>
    obtain rfl : requested = below base [y] := by
      unfold validateFsPath at hvalid
      split at hvalid
      · cases hvalid
      · rw [← Except.ok.inj hvalid, hpath]
    show Throughout Os.step _ _ (Act.lstat (below base [y]) >>= _) os
    refine throughout_bind (throughout_mono (fun answer t ht hanswer => ?_) (throughout_lstat hstart _))
    obtain ⟨rfl, rfl⟩ := hanswer
    cases hp : t.lookup false (below base [y]) with
    | error e =>
      show Throughout Os.step _ _ (if e.toError.kind = .notFound ∧ (force || ifExists) = true then _ else _) t
      split
      · exact ⟨ht, trivial⟩
      · exact ht
    | ok found =>
      obtain ⟨l, obj⟩ := found
      obtain rfl := Os.lookup_below_name hleads hp
      have hremoved : Throughout Os.step (Thinned (dir ++ [y]) t) (fun _ _ => True)
          (removeFor env recursive (below base [y]) (t.metadata (dir ++ [y]) obj)) t := by
        unfold removeFor
        split
        · exact throughout_mono (fun _ _ _ _ => trivial)
            (Os.throughout_ioCall (Thinned (dir ++ [y]) t) ht (Os.thinned_rmdir ht hp))
        · exact throughout_removePath env.depth hp
      refine throughout_bind (throughout_mono (fun result t' ht' _ => ?_) (throughout_attempt hremoved))
      exact throughout_bind (throughout_mono (fun _ _ ht'' _ => ⟨ht'', trivial⟩) (throughout_ioContext ht' _ result))

end

end Daemon

end Rsdb
