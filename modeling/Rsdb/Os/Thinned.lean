/-
# Removing a part of the tree

`Thinned l os os'` says that something at `l` or below it may be gone in `os'`, and that
nothing else has changed. A removal that starts at a path stays below the place of the
path, in every state on the way and wherever it stops (`throughout_removeDirAll`): the
names it goes through are those of open directories, and no link is followed.
-/
import Rsdb.Os.RemoveDirAll

namespace Rsdb

open Prog (Throughout throughout_bind throughout_mono throughout_attempt)

namespace Os

/-! ### Changes in an area -/

/-- Nothing has changed outside the area. -/
structure Outside (area : Loc → Prop) (os os' : Os) : Prop extends SameProcess os os' where
  view : ∀ k, ¬ area k → os'.view k = os.view k

section

variable {area area' : Loc → Prop} {a b c : Os}

theorem Outside.trans (h : Outside area a b) (h' : Outside area b c) : Outside area a c :=
  ⟨h.toSameProcess.trans h'.toSameProcess, fun k hk => (h'.view k hk).trans (h.view k hk)⟩

theorem Outside.mono (h : Outside area a b) (hsub : ∀ k, area k → area' k) : Outside area' a b :=
  ⟨h.toSameProcess, fun k hk => h.view k fun hk' => hk (hsub k hk')⟩

theorem SameTree.symm (h : SameTree a b) : SameTree b a :=
  ⟨h.toSameProcess.symm, fun k => (h.view k).symm⟩

theorem SameTree.outside (h : SameTree a b) : Outside area a b := ⟨h.toSameProcess, fun k _ => h.view k⟩

end

/-- Something at a place or below it may be gone; all else is as it was. -/
structure Thinned (l : Loc) (os os' : Os) : Prop extends Less os os' where
  elsewhere : ∀ k, ¬ l <+: k → os'.view k = os.view k

section

variable {l : Loc} {os os' after : Os}

theorem Thinned.refl (l : Loc) (os : Os) : Thinned l os os := ⟨⟨SameProcess.refl os, fun _ => Or.inl rfl⟩, fun _ _ => rfl⟩

theorem Thinned.outside (h : Thinned l os os') : Outside (l <+: ·) os os' := ⟨h.toSameProcess, h.elsewhere⟩

theorem Thinned.sameTree (h : Thinned l os os') (hsame : SameTree os' after) : Thinned l os after where
  toSameProcess := h.toSameProcess.trans hsame.toSameProcess
  view k := by
    rw [hsame.view]
    exact h.view k
  elsewhere k hk := (hsame.view k).trans (h.elsewhere k hk)

theorem Thinned.behind (h : Thinned l os' after) (hsame : SameTree os os') : Thinned l os after where
  toSameProcess := hsame.toSameProcess.trans h.toSameProcess
  view k := by
    rw [← hsame.view]
    exact h.view k
  elsewhere k hk := (h.elsewhere k hk).trans (hsame.view k)

theorem Thinned.without (h : Thinned l os os') {l' : Loc} (hw : Without (l' <+: ·) os' after) (hl : l <+: l') :
    Thinned l os after where
  toSameProcess := h.toSameProcess.trans hw.toSameProcess
  view k := by
    rcases hw.less.view k with heq | hnone
    · rw [heq]
      exact h.view k
    · exact Or.inr hnone
  elsewhere k hk := (hw.kept k fun hk' => hk (hl.trans hk')).trans (h.elsewhere k hk)

end

/-! ### One name -/

section

variable {os : Os} {dir : Loc} {n : Name} {f : Found}

/-- A name in a directory, where a link is not followed. -/
theorem walkWith_name_loc {jump : List Comp → Loc → Except IoErrorKind Found}
    (h : walkWith os false jump [.normal n] dir = .ok f) : f.loc = dir ++ [n] := by
  unfold walkWith at h
  split at h
  · cases h
  · cases h
  simp only [and_self, ↓reduceIte] at h
  split at h
  · cases h
  split at h
  · exact (Except.ok.inj h) ▸ rfl
  · exact (Except.ok.inj h) ▸ rfl
  · obtain ⟨_, -, rfl⟩ := walkWith_nil h
    rfl

theorem walkWith_name_jump (jump jump' : List Comp → Loc → Except IoErrorKind Found) :
    walkWith os false jump [.normal n] dir = walkWith os false jump' [.normal n] dir := by
  unfold walkWith
  simp only [and_self, ↓reduceIte]
  rfl

theorem resolve_name_loc (h : (os.startingIn dir).resolve false (Path.ofNames [n]) = .ok f) : f.loc = dir ++ [n] := by
  rw [resolve_ofNames _ _ (List.cons_ne_nil n [])] at h
  exact @walkWith_name_loc (os.startingIn dir) _ _ _ _ h

/-- A path to a directory and a name behind it. -/
theorem resolve_below_name {base : Path} (hleads : Leads os base dir) (h : os.resolve false (below base [n]) = .ok f) :
    f.loc = dir ++ [n] := by
  have hresult := resolve_below_eq hleads (List.cons_ne_nil n []) fun jump =>
    @walkWith_name_jump os dir n jump fun _ _ => .error .filesystemLoop
  rw [h] at hresult
  exact walkWith_name_loc hresult.symm

theorem lookup_below_name {base : Path} (hleads : Leads os base dir) {l : Loc} {obj : Obj}
    (h : os.lookup false (below base [n]) = .ok (l, obj)) : l = dir ++ [n] := by
  obtain ⟨hresolve, -, -⟩ := lookup_eq_ok h
  rw [below_slash base (List.cons_ne_nil n []), Bool.or_false] at hresolve
  exact resolve_below_name hleads hresolve

end

/-! ### The calls -/

/-- What a name that is taken away was. -/
theorem unlink_without {os os' : Os} {p : Path} (h : os.unlink p = .ok os') :
    ∃ l leaf, os.resolve false p = .ok (.entry l (.inl leaf)) ∧ p.slash = false ∧ Without (l <+: ·) os os' := by
  cases hr : os.resolve false p with
  | error e => simp [unlink, hr] at h
  | ok f =>
    rcases f with ⟨l, leaf | mode⟩ | l
    · cases hslash : p.slash with
      | true => simp [unlink, hr, hslash] at h
      | false =>
        have hunlink := unlink_leaf hr hslash
        split at hunlink
        · obtain ⟨after, hafter, hw⟩ := hunlink
          obtain rfl := Except.ok.inj (h.symm.trans hafter)
          exact ⟨l, leaf, rfl, rfl, hw⟩
        · rw [hunlink] at h
          cases h
    · simp [unlink, hr] at h
    · simp [unlink, hr] at h

section

variable {l : Loc} {os s : Os} {p : Path}

/-- A path that is looked up without following a link leads to the same place in what is left. -/
theorem Thinned.loc_of_resolve (h : Thinned l os s) {obj : Obj} (hp : os.lookup false p = .ok (l, obj)) {l' : Loc}
    {obj' : Obj} (hr : s.resolve false p = .ok (.entry l' obj')) (hslash : obj'.isLeft = true → p.slash = false) :
    l' = l := by
  have hlookup := lookup_of_resolve (resolve_less h.toLess (by simp) hr) hslash
  rw [hp] at hlookup
  exact (Prod.mk.inj (Except.ok.inj hlookup)).1.symm

theorem thinned_unlink (h : Thinned l os s) {obj : Obj} (hp : os.lookup false p = .ok (l, obj)) :
    Thinned l os (step (.unlink p) s).2 := by
  have hstep : step (.unlink p) s = s.done (s.unlink p) := rfl
  rw [hstep]
  cases hunlink : s.unlink p with
  | error e => exact h
  | ok after =>
    obtain ⟨l', leaf, hr, hslash, hw⟩ := unlink_without hunlink
    exact h.without hw (h.loc_of_resolve hp hr (fun _ => hslash) ▸ List.prefix_rfl)

theorem thinned_rmdir (h : Thinned l os s) {obj : Obj} (hp : os.lookup false p = .ok (l, obj)) :
    Thinned l os (step (.rmdir p) s).2 := by
  have hstep : step (.rmdir p) s = s.done (s.rmdir p) := rfl
  rw [hstep]
  cases hrmdir : s.rmdir p with
  | error e => exact h
  | ok after =>
    obtain ⟨l', mode, hr, hw⟩ := rmdir_eq_ok hrmdir
    exact h.without hw (h.loc_of_resolve hp hr nofun ▸ List.prefix_rfl)

variable {dir : Loc} {n : Name}

theorem thinned_unlinkAt (h : Thinned l os s) (hl : l <+: dir ++ [n]) :
    Thinned l os (step (.unlinkAt dir (Path.ofNames [n])) s).2 := by
  have hstep : step (.unlinkAt dir (Path.ofNames [n])) s = s.done (s.unlinkAt dir (Path.ofNames [n])) := rfl
  rw [hstep, unlinkAt]
  cases hunlink : (s.startingIn dir).unlink (Path.ofNames [n]) with
  | error e => exact h
  | ok after =>
    obtain ⟨l', leaf, hr, -, hw⟩ := unlink_without hunlink
    obtain rfl : l' = dir ++ [n] := resolve_name_loc hr
    exact h.without (without_startingIn hw) hl

theorem thinned_rmdirAt (h : Thinned l os s) (hl : l <+: dir ++ [n]) :
    Thinned l os (step (.rmdirAt dir (Path.ofNames [n])) s).2 := by
  have hstep : step (.rmdirAt dir (Path.ofNames [n])) s = s.done (s.rmdirAt dir (Path.ofNames [n])) := rfl
  rw [hstep, rmdirAt]
  cases hrmdir : (s.startingIn dir).rmdir (Path.ofNames [n]) with
  | error e => exact h
  | ok after =>
    obtain ⟨l', mode, hr, hw⟩ := rmdir_eq_ok hrmdir
    obtain rfl : l' = dir ++ [n] := resolve_name_loc hr
    exact h.without (without_startingIn hw) hl

/-- A directory that is opened is where its path leads. -/
theorem openDir_eq_ok {parent : Option Loc} {loc : Loc} (h : s.openDir parent p = .ok loc) :
    ∃ mode, (s.startingIn (parent.getD s.cwd)).lookup false p = .ok (loc, .inr mode) := by
  unfold openDir at h
  split at h
  · cases h
  · cases h
  · rename_i mode hlookup
    split at h
    · exact ⟨mode, by rw [← Except.ok.inj h, hlookup]⟩
    · cases h

end

/-! ### `remove_dir_all` -/

section

variable {l : Loc} {os : Os}

/-- One call of a program that fails with an I/O error. -/
theorem throughout_ioCall (I : Os → Prop) {c : Call} {s : Os} (hI : I s) (h : I (step c s).2) :
    Throughout step I (fun a t => step c s = (.ok a, t)) (IoAct.call c) s := by
  refine ⟨hI, ?_⟩
  rcases hstep : step c s with ⟨answer, t⟩
  rw [hstep] at h
  cases answer with
  | ok a => exact ⟨h, rfl⟩
  | error err => exact h

theorem throughout_ignoreNotFound {I : Os → Prop} {x : IoAct Unit} {s : Os}
    (h : Throughout step I (fun _ _ => True) x s) :
    Throughout step I (fun _ _ => True) (IoAct.ignoreNotFound x) s := by
  refine throughout_bind (throughout_mono (fun outcome t ht _ => ?_) (throughout_attempt h))
  cases outcome with
  | ok u => exact ⟨ht, trivial⟩
  | error err =>
    show Throughout step I _ (if err.kind = .notFound then _ else _) t
    split
    · exact ⟨ht, trivial⟩
    · exact ht

theorem throughout_removeChildren {removeDir : Path → IoAct Unit} {dir : Loc} (hl : l <+: dir)
    (hremove : ∀ n s, Thinned l os s →
      Throughout step (Thinned l os) (fun _ _ => True) (removeDir (Path.ofNames [n])) s) :
    ∀ (children : List (Name × Bool)) {s : Os}, Thinned l os s →
      Throughout step (Thinned l os) (fun _ _ => True) (IoAct.removeChildren removeDir dir children) s
  | [], _, hs => ⟨hs, trivial⟩
  | (n, isDir) :: children, s, hs => by
    have hone : Throughout step (Thinned l os) (fun _ _ => True)
        (if isDir then removeDir (Path.ofNames [n]) else IoAct.call (.unlinkAt dir (Path.ofNames [n]))) s := by
      split
      · exact hremove n s hs
      · exact throughout_mono (fun _ _ _ _ => trivial)
          (throughout_ioCall (Thinned l os) hs (thinned_unlinkAt hs (hl.trans (List.prefix_append dir [n]))))
    have hfirst := throughout_ignoreNotFound hone
    refine throughout_bind (throughout_mono (fun _ t ht _ => ?_) hfirst)
    exact throughout_removeChildren hl hremove children ht

theorem throughout_removeContents {removeDir : Path → IoAct Unit} {dir : Loc} (hl : l <+: dir)
    (hremove : ∀ n s, Thinned l os s →
      Throughout step (Thinned l os) (fun _ _ => True) (removeDir (Path.ofNames [n])) s) {s : Os} (hs : Thinned l os s) :
    Throughout step (Thinned l os) (fun _ _ => True) (IoAct.removeContents removeDir dir) s := by
  have hsame : (step (.listDir dir) s).2 = s := by
    have hstep : step (.listDir dir) s = s.answer ((s.listDir dir).map fun children => (children, s)) := rfl
    rw [hstep]
    cases s.listDir dir <;> rfl
  refine throughout_bind (throughout_mono (fun children t ht _ => ?_)
    (throughout_ioCall (Thinned l os) hs (by rwa [hsame])))
  exact throughout_removeChildren hl hremove children ht

/-- Opening a directory changes nothing. -/
theorem step_openDir_same (parent : Option Loc) (p : Path) (s : Os) : (step (.openDir parent p) s).2 = s := by
  have hstep : step (.openDir parent p) s = s.answer ((s.openDir parent p).map fun loc => (loc, s)) := rfl
  rw [hstep]
  cases s.openDir parent p <;> rfl

theorem openDir_of_step {parent : Option Loc} {p : Path} {s t : Os} {loc : Loc}
    (h : step (.openDir parent p) s = (.ok loc, t)) : s.openDir parent p = .ok loc := by
  have hstep : step (.openDir parent p) s = s.answer ((s.openDir parent p).map fun loc => (loc, s)) := rfl
  rw [hstep] at h
  cases hopen : s.openDir parent p with
  | error e =>
    rw [hopen] at h
    cases h
  | ok loc' =>
    rw [hopen] at h
    exact congrArg Except.ok (Except.ok.inj (congrArg Prod.fst h))

/-- The directories below an open one. -/
theorem throughout_removeDirAllRecursive : ∀ (depth : ℕ) {dir : Loc}, l <+: dir → ∀ (n : Name) (s : Os),
    Thinned l os s → Throughout step (Thinned l os) (fun _ _ => True)
      (IoAct.removeDirAllRecursive depth (some dir) (Path.ofNames [n])) s
  | 0, _, _, _, _, hs => hs
  | depth + 1, dir, hl, n, s, hs => by
    have hchild : l <+: dir ++ [n] := hl.trans (List.prefix_append dir [n])
    refine throughout_bind (throughout_mono (fun opened t ht hopened => ?_)
      (throughout_attempt (@throughout_ioCall (Thinned l os) (.openDir (some dir) (Path.ofNames [n])) s hs
        (by rwa [step_openDir_same]))))
    cases opened with
    | error err =>
      show Throughout step _ _ (if err.kind = .notADirectory then _ else _) t
      split
      · exact throughout_mono (fun _ _ _ _ => trivial) (throughout_ioCall (Thinned l os) ht (thinned_unlinkAt ht hchild))
      · exact ht
    | ok loc =>
      obtain ⟨mode, hlookup⟩ := openDir_eq_ok (openDir_of_step (hopened loc rfl))
      obtain ⟨hresolve, -, -⟩ := lookup_eq_ok hlookup
      rw [Path.ofNames_slash, Bool.or_false] at hresolve
      obtain rfl : loc = dir ++ [n] := resolve_name_loc hresolve
      refine throughout_bind (throughout_mono (fun _ t ht _ => ?_)
        (throughout_removeContents hchild (throughout_removeDirAllRecursive depth hchild) ht))
      exact throughout_ignoreNotFound
        (throughout_mono (fun _ _ _ _ => trivial) (throughout_ioCall (Thinned l os) ht (thinned_rmdirAt ht hchild)))

/-- **A removal stays at its place**, wherever it stops. -/
theorem throughout_removeDirAll (depth : ℕ) {p : Path} {obj : Obj} (hp : os.lookup false p = .ok (l, obj)) :
    Throughout step (Thinned l os) (fun _ _ => True) (IoAct.removeDirAll depth p) os := by
  have hstart := Thinned.refl l os
  have hlstat : (step (.lstat p) os).2 = os := by rw [step_lstat]
  refine throughout_bind (throughout_mono (fun metadata t ht hmetadata => ?_)
    (throughout_ioCall (Thinned l os) hstart (by rwa [hlstat])))
  obtain rfl : t = os := (congrArg Prod.snd hmetadata).symm.trans hlstat
  show Throughout step (Thinned l t) _ (if metadata.kind = .symlink then _ else _) t
  split
  · exact throughout_mono (fun _ _ _ _ => trivial) (throughout_ioCall (Thinned l t) ht (thinned_unlink ht hp))
  cases depth with
  | zero => exact ht
  | succ depth =>
    refine throughout_bind (throughout_mono (fun opened t' ht' hopened => ?_)
      (throughout_attempt (@throughout_ioCall (Thinned l t) (.openDir none p) t ht (by rwa [step_openDir_same]))))
    cases opened with
    | error err => exact ht'
    | ok loc =>
      obtain ⟨mode, hlookup⟩ := openDir_eq_ok (openDir_of_step (hopened loc rfl))
      have hsame : t.lookup false p = .ok (loc, .inr mode) := hlookup
      rw [hp] at hsame
      obtain ⟨rfl, -⟩ := Prod.mk.inj (Except.ok.inj hsame)
      refine throughout_bind (throughout_mono (fun _ t'' ht'' _ => ?_) (throughout_removeContents List.prefix_rfl
        (throughout_removeDirAllRecursive depth List.prefix_rfl) ht'))
      exact throughout_ignoreNotFound
        (throughout_mono (fun _ _ _ _ => trivial) (throughout_ioCall (Thinned l t) ht'' (thinned_rmdir ht'' hp)))

end

end Os

end Rsdb
