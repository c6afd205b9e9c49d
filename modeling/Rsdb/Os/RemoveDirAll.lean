/-
# `std::fs::remove_dir_all`

A directory is opened, its children are removed one after the other, the
directories among them the same way, and then it is removed itself. What is not
found any more on the way is no error. The children are named relative to the
open directory, so they are found however the path to it led there.

`removeDirAllRecursive_clears` says when that succeeds for a name in an open
directory (`Deletable`) and what it takes away, `removeDirAll_run` for a path.
-/
import Rsdb.Os.Removal

namespace Rsdb

open Prog (run run_bind run_attempt)

/-- A program that fails with an I/O error. -/
abbrev IoAct (α : Type) := Prog Call Call.Answer IoError α

namespace IoAct

/-- One call and `?`. -/
def call (c : Call) : IoAct c.Value := Prog.ask c >>= Prog.ofExcept

/-- `ignore_notfound`. -/
def ignoreNotFound (x : IoAct Unit) : IoAct Unit := do
  match ← (Prog.attempt x : IoAct (Except IoError Unit)) with
  | .ok () => pure ()
  | .error err => if err.kind = .notFound then pure () else .fail err

/-- `remove_dir_all_recursive` for the children of an open directory. -/
def removeChildren (removeDir : Path → IoAct Unit) (dir : Loc) : List (Name × Bool) → IoAct Unit
  | [] => pure ()
  | (name, isDir) :: children => do
    let child := Path.ofNames [name]
    ignoreNotFound (if isDir then removeDir child else call (.unlinkAt dir child))
    removeChildren removeDir dir children

/-- What an open directory has is removed, child by child. -/
def removeContents (removeDir : Path → IoAct Unit) (dir : Loc) : IoAct Unit := do
  let children ← call (.listDir dir)
  removeChildren removeDir dir children

/-- `unlinkat` with `AT_REMOVEDIR`. -/
def rmdirIn (parent : Option Loc) (p : Path) : IoAct Unit :=
  match parent with
  | none => call (.rmdir p)
  | some dir => call (.rmdirAt dir p)

/-- `depth` bounds the levels of directories. -/
def removeDirAllRecursive : ℕ → Option Loc → Path → IoAct Unit
  | 0, _, _ => .fail ⟨.other, str "too many levels of directories"⟩
  | depth + 1, parent, p => do
    match ← (Prog.attempt (call (.openDir parent p)) : IoAct (Except IoError Loc)), parent with
    | .error err, some dir => if err.kind = .notADirectory then call (.unlinkAt dir p) else .fail err
    | .error err, none => .fail err
    | .ok dir, _ => do
      removeContents (removeDirAllRecursive depth (some dir)) dir
      ignoreNotFound (rmdirIn parent p)

/-- `remove_dir_all`: a link is removed itself. -/
def removeDirAll (depth : ℕ) (p : Path) : IoAct Unit := do
  let metadata ← call (.lstat p)
  if metadata.kind = .symlink then call (.unlink p) else removeDirAllRecursive depth none p

theorem run_call (c : Call) (os : Os) : run Os.step (call c) os = Os.step c os := by
  show run Os.step (.call c fun r => Prog.ofExcept r) os = _
  rw [Prog.run_call, Prog.run_ofExcept]

end IoAct

namespace Os

open IoAct

/-! ### What can be taken away -/

/-- Every directory from `l` on can be listed, and what is in one can be removed. -/
def Emptiable (os : Os) (l : Loc) : Prop :=
  ∀ k mode, os.view (l ++ k) = some (.inr mode) → os.may mode ownerRead = true ∧
    ∀ n obj, os.view (l ++ k ++ [n]) = some obj → os.may mode ownerWrite = true ∧ os.may mode ownerSearch = true

/-- What is at `l` can be removed with everything in it. -/
def Deletable (os : Os) (l : Loc) : Prop := os.Emptiable l ∧ os.mayChange l = true

/-- From `l` on there are less than `depth` levels. -/
def Shallow (os : Os) (l : Loc) (depth : ℕ) : Prop := ∀ k obj, os.view (l ++ k) = some obj → k.length < depth

theorem emptiable_leaf {os : Os} {l : Loc} {leaf : Leaf} (hv : os.view l = some (.inl leaf)) : os.Emptiable l := by
  intro k mode hk
  cases k with
  | nil =>
    rw [List.append_nil, hv] at hk
    cases hk
  | cons n k =>
    rw [Os.view, DirTree.view_append_of_leaf hv] at hk
    cases hk

/-- A directory is emptied child by child. -/
theorem emptiable_dir {os : Os} {l : Loc} {mode : ℕ} (hv : os.view l = some (.inr mode)) :
    os.Emptiable l ↔ os.may mode ownerRead = true ∧ ∀ n obj, os.view (l ++ [n]) = some obj → os.Deletable (l ++ [n]) := by
  constructor
  · intro h
    have hself := h [] mode (by rwa [List.append_nil])
    rw [List.append_nil] at hself
    refine ⟨hself.1, fun n obj hn => ⟨fun k m hk => ?_, ?_⟩⟩
    · rw [List.append_assoc] at hk
      simpa only [List.append_assoc] using h ([n] ++ k) m hk
    · rw [mayChange_concat hv]
      simpa using hself.2 n obj hn
  · rintro ⟨hread, hchildren⟩ k m hk
    cases k with
    | nil =>
      rw [List.append_nil, hv] at hk
      cases hk
      refine ⟨hread, fun n obj hn => ?_⟩
      rw [List.append_nil] at hn
      have hmay := (hchildren n obj hn).2
      rw [mayChange_concat hv] at hmay
      simpa using hmay
    | cons n k =>
      have hassoc : l ++ n :: k = l ++ [n] ++ k := by simp
      rw [hassoc] at hk ⊢
      obtain ⟨obj, hobj⟩ := DirTree.exists_view_of_append hk
      exact (hchildren n obj hobj).1 k m hk

/-- It depends on what is there and on the directory it is in. -/
theorem Deletable.congr {os os' : Os} (hp : SameProcess os os') {l : Loc}
    (hbelow : ∀ k, os'.view (l ++ k) = os.view (l ++ k)) (hparent : os'.view l.dropLast = os.view l.dropLast) :
    os'.Deletable l ↔ os.Deletable l := by
  have hmay : os'.mayChange l = os.mayChange l := by
    unfold mayChange
    rw [hparent]
    split <;> simp only [hp.may]
  unfold Deletable Emptiable
  simp only [List.append_assoc, hbelow, hp.may, hmay]

/-! ### Clearing a part of the tree -/

/-- The program takes away `gone` if `P`, and is denied something if not. -/
def Clears (P : Prop) (gone : Loc → Prop) (os : Os) (x : IoAct Unit) : Prop :=
  ∃ os', (P ∧ run step x os = (.ok (), os') ∧ Without gone os os') ∨
    (¬ P ∧ ∃ err, run step x os = (.error err, os') ∧ err.kind = .permissionDenied)

theorem Clears.widen {P Q : Prop} {gone gone' : Loc → Prop} {os : Os} {x : IoAct Unit} (h : Clears P gone os x)
    (hpq : P ↔ Q) (hgone : ∀ k, gone k → gone' k) (hnone : ∀ k, gone' k → ¬ gone k → os.view k = none) :
    Clears Q gone' os x := by
  obtain ⟨os', ⟨hp, hrun, hw⟩ | ⟨hp, herr⟩⟩ := h
  · exact ⟨os', Or.inl ⟨hpq.mp hp, hrun, hw.widen hgone hnone⟩⟩
  · exact ⟨os', Or.inr ⟨mt hpq.mpr hp, herr⟩⟩

theorem Clears.congr {P Q : Prop} {gone gone' : Loc → Prop} {os : Os} {x : IoAct Unit} (h : Clears P gone os x)
    (hpq : P ↔ Q) (hgone : ∀ k, gone k ↔ gone' k) : Clears Q gone' os x :=
  h.widen hpq (fun k => (hgone k).mp) fun k hk hn => absurd ((hgone k).mpr hk) hn

theorem clears_denied {P : Prop} (hP : ¬ P) {gone : Loc → Prop} {os : Os} (os' : Os) {x : IoAct Unit}
    (h : run step x os = (.error IoErrorKind.permissionDenied.toError, os')) : Clears P gone os x :=
  ⟨os', Or.inr ⟨hP, _, h, rfl⟩⟩

/-- One after the other. -/
theorem Clears.bind {P Q : Prop} {gone gone' : Loc → Prop} {os : Os} {x y : IoAct Unit} (hx : Clears P gone os x)
    (hy : ∀ os', P → Without gone os os' → Clears Q gone' os' y) :
    Clears (P ∧ Q) (fun k => gone k ∨ gone' k) os (x >>= fun _ => y) := by
  obtain ⟨os', ⟨hp, hrun, hw⟩ | ⟨hp, err, hrun, hkind⟩⟩ := hx
  · obtain ⟨os'', ⟨hq, hrun', hw'⟩ | ⟨hq, err, hrun', hkind⟩⟩ := hy os' hp hw
    · refine ⟨os'', Or.inl ⟨⟨hp, hq⟩, ?_, hw.trans hw'⟩⟩
      rw [run_bind, hrun]
      exact hrun'
    · refine ⟨os'', Or.inr ⟨fun h => hq h.2, err, ?_, hkind⟩⟩
      rw [run_bind, hrun]
      exact hrun'
  · refine ⟨os', Or.inr ⟨fun h => hp h.1, err, ?_, hkind⟩⟩
    rw [run_bind, hrun]

theorem run_ignoreNotFound (x : IoAct Unit) (os : Os) :
    run step (ignoreNotFound x) os =
      match run step x os with
      | (.ok (), os') => (.ok (), os')
      | (.error err, os') => if err.kind = .notFound then (.ok (), os') else (.error err, os') := by
  rw [ignoreNotFound, run_bind, run_attempt]
  rcases run step x os with ⟨_ | u, os'⟩
  · simp only
    split <;> rfl
  · rfl

/-- A denial is not ignored. -/
theorem Clears.ignoreNotFound {P : Prop} {gone : Loc → Prop} {os : Os} {x : IoAct Unit} (h : Clears P gone os x) :
    Clears P gone os (ignoreNotFound x) := by
  obtain ⟨os', ⟨hp, hrun, hw⟩ | ⟨hp, err, hrun, hkind⟩⟩ := h
  · refine ⟨os', Or.inl ⟨hp, ?_, hw⟩⟩
    rw [run_ignoreNotFound, hrun]
  · refine ⟨os', Or.inr ⟨hp, err, ?_, hkind⟩⟩
    rw [run_ignoreNotFound, hrun]
    simp [hkind]

/-! ### The children of a directory -/

theorem Shallow.less {os os' : Os} {l : Loc} {depth : ℕ} (h : os.Shallow l depth) (hless : Less os os') :
    os'.Shallow l depth := fun k obj hk => h k obj (hless.view_of_some hk)

theorem Shallow.child {os : Os} {l : Loc} {depth : ℕ} (h : os.Shallow l (depth + 1)) (n : Name) :
    os.Shallow (l ++ [n]) depth := by
  intro k obj hk
  have hlt := h (n :: k) obj (by rwa [List.append_assoc] at hk)
  rw [List.length_cons] at hlt
  omega

/-- A listing has every name once, with what is there. -/
theorem listDir_dir {os : Os} {dir : Loc} {mode : ℕ} (hv : os.view dir = some (.inr mode)) :
    ∃ cs, os.listDir dir = .ok cs ∧ (cs.map Prod.fst).Nodup ∧
      ∀ n b, (n, b) ∈ cs ↔ ∃ obj, os.view (dir ++ [n]) = some obj ∧ b = obj.isRight := by
  obtain ⟨cs, htree, hnames, hview⟩ := children_of_dir hv
  refine ⟨cs.map fun c => (c.1, c.2.label.isRight), by simp only [listDir, htree], ?_, fun n b => ?_⟩
  · have hfst : ((cs.map fun c => (c.1, c.2.label.isRight)).map Prod.fst) = cs.map Prod.fst := by simp
    rw [hfst, List.Nodup, List.pairwise_map]
    exact hnames.imp fun hlt => hlt.ne
  · rw [hview]
    constructor
    · intro hmem
      obtain ⟨⟨n', t⟩, hc, heq⟩ := List.mem_map.mp hmem
      obtain ⟨rfl, rfl⟩ := Prod.mk.inj heq
      exact ⟨t.label, by rw [DirTree.child_of_mem hnames hc, Option.map_some], rfl⟩
    · rintro ⟨obj, hobj, rfl⟩
      obtain ⟨t, ht, rfl⟩ := Option.map_eq_some_iff.mp hobj
      exact List.mem_map.mpr ⟨(n, t), DirTree.mem_of_child ht, rfl⟩

/-- A call relative to an open directory, as one of a process that starts there. -/
theorem without_startingIn {gone : Loc → Prop} {os os' : Os} {dir : Loc} (h : Without gone (os.startingIn dir) os') :
    Without gone os (os'.startingIn os.cwd) :=
  ⟨⟨rfl, h.umask, h.privileged, h.dirSize⟩, h.taken, h.kept⟩

/-- A leaf in an open directory. -/
theorem unlinkAt_clears {os : Os} {dir : Loc} {mode : ℕ} (hdir : os.view dir = some (.inr mode)) {n : Name}
    {leaf : Leaf} (hv : os.view (dir ++ [n]) = some (.inl leaf)) :
    Clears (os.Deletable (dir ++ [n])) (dir ++ [n] <+: ·) os (call (.unlinkAt dir (Path.ofNames [n]))) := by
  have hrun : run step (call (.unlinkAt dir (Path.ofNames [n]))) os = os.done (os.unlinkAt dir (Path.ofNames [n])) :=
    run_call _ _
  cases hsearch : os.may mode ownerSearch with
  | false =>
    have hunlink : (os.startingIn dir).unlink (Path.ofNames [n]) = .error .permissionDenied := by
      rw [unlink, resolve_child_denied hdir n hsearch]
    refine clears_denied (fun hdel => ?_) os ?_
    · have hmay := hdel.2
      rw [mayChange_concat hdir, hsearch] at hmay
      simp at hmay
    · rw [hrun, unlinkAt, hunlink]
      rfl
  | true =>
    have hres := resolve_child hdir n hsearch
    rw [foundAt, hv] at hres
    have hunlink := unlink_leaf hres (Path.ofNames_slash [n])
    split at hunlink
    · rename_i hmay
      obtain ⟨os', hok, hw⟩ := hunlink
      refine ⟨os'.startingIn os.cwd, Or.inl ⟨⟨emptiable_leaf hv, hmay⟩, ?_, without_startingIn hw⟩⟩
      rw [hrun, unlinkAt, hok]
      rfl
    · rename_i hmay
      refine clears_denied (fun hdel => hmay hdel.2) os ?_
      rw [hrun, unlinkAt, hunlink]
      rfl

section Children

variable {removeDir : Path → IoAct Unit} {dir : Loc} {depth : ℕ}
  (hremove : ∀ {os : Os} {mode : ℕ} {n : Name} {m : ℕ}, os.view dir = some (.inr mode) →
    os.view (dir ++ [n]) = some (.inr m) → os.Shallow (dir ++ [n]) depth →
    Clears (os.Deletable (dir ++ [n])) (dir ++ [n] <+: ·) os (removeDir (Path.ofNames [n])))

include hremove

/-- The loop over the children: each is as it was until its turn. -/
theorem removeChildren_clears {mode : ℕ} : ∀ {cs : List (Name × Bool)} {os : Os}, os.view dir = some (.inr mode) →
    (cs.map Prod.fst).Nodup →
    (∀ c ∈ cs, (∃ obj, os.view (dir ++ [c.1]) = some obj ∧ c.2 = obj.isRight) ∧ os.Shallow (dir ++ [c.1]) depth) →
    Clears (∀ c ∈ cs, os.Deletable (dir ++ [c.1])) (fun k => ∃ c ∈ cs, dir ++ [c.1] <+: k) os
      (removeChildren removeDir dir cs)
  | [], os, _, _, _ =>
    ⟨os, Or.inl ⟨by simp, rfl, ⟨⟨rfl, rfl, rfl, rfl⟩, fun k hk => by simp at hk, fun _ _ => rfl⟩⟩⟩
  | (n, isDir) :: cs, os, hdir, hnd, hcs => by
    obtain ⟨⟨obj, hobj, hkind⟩, hshallow⟩ := hcs (n, isDir) List.mem_cons_self
    rw [List.map_cons, List.nodup_cons] at hnd
    have hfirst : Clears (os.Deletable (dir ++ [n])) (dir ++ [n] <+: ·) os
        (if isDir then removeDir (Path.ofNames [n]) else call (.unlinkAt dir (Path.ofNames [n]))) := by
      rw [show isDir = obj.isRight from hkind]
      cases obj with
      | inl leaf => exact unlinkAt_clears hdir hobj
      | inr m => exact hremove hdir hobj hshallow
    have hrest : ∀ os', os.Deletable (dir ++ [n]) → Without (dir ++ [n] <+: ·) os os' →
        Clears (∀ c ∈ cs, os.Deletable (dir ++ [c.1])) (fun k => ∃ c ∈ cs, dir ++ [c.1] <+: k) os'
          (removeChildren removeDir dir cs) := by
      intro os' _ hw
      have hother : ∀ c ∈ cs, ∀ k, os'.view (dir ++ [c.1] ++ k) = os.view (dir ++ [c.1] ++ k) := by
        intro c hc k
        refine hw.kept _ fun hpre => hnd.1 ?_
        rw [List.append_assoc, List.prefix_append_right_inj, List.singleton_append, List.cons_prefix_cons] at hpre
        exact List.mem_map.mpr ⟨c, hc, hpre.1.symm⟩
      have hdir' : os'.view dir = some (.inr mode) := by
        rw [hw.kept dir fun hpre => by simpa using hpre.length_le, hdir]
      refine (removeChildren_clears hdir' hnd.2 fun c hc => ?_).congr ?_ fun k => Iff.rfl
      · obtain ⟨hthere, hc'⟩ := hcs c (List.mem_cons_of_mem _ hc)
        have hview := hother c hc []
        rw [List.append_nil] at hview
        exact ⟨hview ▸ hthere, hc'.less hw.less⟩
      · refine forall₂_congr fun c hc => Deletable.congr hw.toSameProcess (hother c hc) ?_
        rw [List.dropLast_concat, hdir, hdir']
    rw [removeChildren]
    exact (hfirst.ignoreNotFound.bind hrest).congr (by simp) (by simp)

theorem removeContents_clears {os : Os} {mode : ℕ} (hdir : os.view dir = some (.inr mode))
    (hshallow : os.Shallow dir (depth + 1)) :
    Clears (∀ n obj, os.view (dir ++ [n]) = some obj → os.Deletable (dir ++ [n])) (fun k => dir <+: k ∧ k ≠ dir) os
      (removeContents removeDir dir) := by
  obtain ⟨cs, hlist, hnd, hmem⟩ := listDir_dir hdir
  have hrun : run step (removeContents removeDir dir) os = run step (removeChildren removeDir dir cs) os := by
    rw [removeContents, run_bind, run_call]
    simp only [step, hlist, Except.map, answer]
  have hclears := removeChildren_clears hremove hdir hnd fun c hc => ⟨(hmem c.1 c.2).mp hc, hshallow.child c.1⟩
  unfold Clears
  rw [hrun]
  refine hclears.widen ?_ ?_ ?_
  · constructor
    · intro h n obj hobj
      exact h (n, obj.isRight) ((hmem n _).mpr ⟨obj, hobj, rfl⟩)
    · intro h c hc
      obtain ⟨obj, hobj, -⟩ := (hmem c.1 c.2).mp hc
      exact h c.1 obj hobj
  · rintro k ⟨c, -, ⟨t, rfl⟩⟩
    refine ⟨⟨[c.1] ++ t, by rw [List.append_assoc]⟩, fun heq => ?_⟩
    simpa using congrArg List.length heq
  · rintro k ⟨⟨t, rfl⟩, hne⟩ hnot
    obtain ⟨n, t, rfl⟩ := List.exists_cons_of_ne_nil (show t ≠ [] from fun h => hne (by rw [h, List.append_nil]))
    have hassoc : dir ++ n :: t = dir ++ [n] ++ t := by simp
    rw [hassoc] at hnot ⊢
    cases hv : os.view (dir ++ [n]) with
    | none => exact DirTree.view_append_eq_none hv t
    | some obj =>
      exact absurd ⟨(n, obj.isRight), (hmem n _).mpr ⟨obj, hv, rfl⟩, List.prefix_append _ _⟩ hnot

end Children

/-! ### A directory -/

theorem rmdirAt_clears {os : Os} {dir : Loc} {mode : ℕ} (hdir : os.view dir = some (.inr mode))
    (hsearch : os.may mode ownerSearch = true) {n : Name} {m : ℕ} (hv : os.view (dir ++ [n]) = some (.inr m))
    (hempty : ∀ n', os.view (dir ++ [n] ++ [n']) = none) :
    Clears (os.mayChange (dir ++ [n]) = true) (dir ++ [n] <+: ·) os (rmdirIn (some dir) (Path.ofNames [n])) := by
  have hrun : run step (rmdirIn (some dir) (Path.ofNames [n])) os = os.done (os.rmdirAt dir (Path.ofNames [n])) :=
    run_call _ _
  have hres := resolve_child hdir n hsearch
  rw [foundAt, hv] at hres
  have hrmdir := rmdir_empty hres (by simp [Path.fileName]) (Path.ofNames_dot [n]) hempty
  split at hrmdir
  · rename_i hmay
    obtain ⟨os', hok, hw⟩ := hrmdir
    refine ⟨os'.startingIn os.cwd, Or.inl ⟨hmay, ?_, without_startingIn hw⟩⟩
    rw [hrun, rmdirAt, hok]
    rfl
  · rename_i hmay
    refine clears_denied hmay os ?_
    rw [hrun, rmdirAt, hrmdir]
    rfl

theorem openDir_child {os : Os} {dir : Loc} {mode : ℕ} (hdir : os.view dir = some (.inr mode)) {n : Name} {m : ℕ}
    (hv : os.view (dir ++ [n]) = some (.inr m)) :
    os.openDir (some dir) (Path.ofNames [n]) =
      if os.may mode ownerSearch = true ∧ os.may m ownerRead = true then .ok (dir ++ [n])
      else .error .permissionDenied := by
  rw [openDir, Option.getD_some, lookup]
  cases hsearch : os.may mode ownerSearch with
  | false =>
    have hres := resolve_child_denied hdir n hsearch
    rw [Path.ofNames_slash, Bool.or_false, hres]
    simp
  | true =>
    have hres := resolve_child hdir n hsearch
    rw [foundAt, hv] at hres
    rw [Path.ofNames_slash, Bool.or_false, hres]
    simp

/-- **What `remove_dir_all` takes of a directory in an open one.** -/
theorem removeDirAllRecursive_clears : ∀ {depth : ℕ} {os : Os} {dir : Loc} {mode : ℕ} {n : Name} {m : ℕ},
    os.view dir = some (.inr mode) → os.view (dir ++ [n]) = some (.inr m) → os.Shallow (dir ++ [n]) depth →
    Clears (os.Deletable (dir ++ [n])) (dir ++ [n] <+: ·) os
      (removeDirAllRecursive depth (some dir) (Path.ofNames [n]))
  | 0, os, dir, _, n, m, _, hv, hshallow =>
    absurd (hshallow [] (.inr m) (by rwa [List.append_nil])) (Nat.not_lt_zero _)
  | depth + 1, os, dir, mode, n, m, hdir, hv, hshallow => by
    have hopen : run step (call (.openDir (some dir) (Path.ofNames [n]))) os =
        os.answer ((os.openDir (some dir) (Path.ofNames [n])).map fun loc => (loc, os)) := run_call _ _
    rw [openDir_child hdir hv] at hopen
    by_cases hmay : os.may mode ownerSearch = true ∧ os.may m ownerRead = true
    · obtain ⟨hsearch, hread⟩ := hmay
      rw [if_pos ⟨hsearch, hread⟩] at hopen
      have hrun : run step (removeDirAllRecursive (depth + 1) (some dir) (Path.ofNames [n])) os =
          run step (removeContents (removeDirAllRecursive depth (some (dir ++ [n]))) (dir ++ [n]) >>= fun _ =>
            ignoreNotFound (rmdirIn (some dir) (Path.ofNames [n]))) os := by
        rw [removeDirAllRecursive, run_bind, run_attempt, hopen]
        rfl
      have hcontents := removeContents_clears
        (fun h h' h'' => removeDirAllRecursive_clears h h' h'') hv hshallow
      have hself : ∀ os', (∀ n' obj, os.view (dir ++ [n] ++ [n']) = some obj → os.Deletable (dir ++ [n] ++ [n'])) →
          Without (fun k => dir ++ [n] <+: k ∧ k ≠ dir ++ [n]) os os' →
          Clears (os.mayChange (dir ++ [n]) = true) (dir ++ [n] <+: ·) os'
            (ignoreNotFound (rmdirIn (some dir) (Path.ofNames [n]))) := by
        intro os' _ hw
        have hdir' : os'.view dir = some (.inr mode) := by
          rw [hw.kept dir fun h => by simpa using h.1.length_le, hdir]
        have hv' : os'.view (dir ++ [n]) = some (.inr m) := by
          rw [hw.kept _ fun h => h.2 rfl, hv]
        have hmay' : os'.mayChange (dir ++ [n]) = os.mayChange (dir ++ [n]) := by
          rw [mayChange_concat hdir, mayChange_concat hdir', hw.toSameProcess.may, hw.toSameProcess.may]
        rw [← hmay']
        refine (rmdirAt_clears hdir' ((hw.toSameProcess.may _ _).trans hsearch) hv' fun n' => ?_).ignoreNotFound
        exact hw.taken _ ⟨List.prefix_append _ _, by simp⟩
      unfold Clears
      rw [hrun]
      refine (hcontents.bind hself).congr ?_ fun k => ?_
      · rw [Deletable, emptiable_dir hv]
        tauto
      · constructor
        · rintro (h | h)
          · exact h.1
          · exact h
        · exact Or.inr
    · rw [if_neg hmay] at hopen
      refine clears_denied (fun hdel => hmay ⟨?_, ?_⟩) os ?_
      · have hchange := hdel.2
        rw [mayChange_concat hdir] at hchange
        simp only [Bool.and_eq_true] at hchange
        exact hchange.2
      · exact ((emptiable_dir hv).mp hdel.1).1
      · rw [removeDirAllRecursive, run_bind, run_attempt, hopen]
        rfl

/-- **`remove_dir_all` on a path to a directory.** Where everything in it can be
removed, what is left is to remove the directory itself; else something was
denied. -/
theorem removeDirAll_run {os : Os} {p : Path} {l : Loc} {m depth : ℕ} (hp : os.lookup false p = .ok (l, .inr m))
    (hshallow : os.Shallow l depth) :
    (os.Emptiable l → ∃ os', Without (fun k => l <+: k ∧ k ≠ l) os os' ∧
        run step (removeDirAll depth p) os = run step (ignoreNotFound (call (.rmdir p))) os') ∧
    (¬ os.Emptiable l → ∃ err os', run step (removeDirAll depth p) os = (.error err, os')) := by
  obtain ⟨-, hv, -⟩ := lookup_eq_ok hp
  have hemptiable := emptiable_dir hv
  cases depth with
  | zero => exact absurd (hshallow [] (.inr m) (by rwa [List.append_nil])) (Nat.not_lt_zero _)
  | succ depth =>
    have hlstat : run step (call (.lstat p)) os = (.ok (os.metadata l (.inr m)), os) := by
      rw [run_call, step_lstat, hp]
      rfl
    have hopen : run step (call (.openDir none p)) os =
        if os.may m ownerRead then (.ok l, os) else (.error IoErrorKind.permissionDenied.toError, os) := by
      have hlookup : (os.startingIn ((none : Option Loc).getD os.cwd)).lookup false p = .ok (l, .inr m) := hp
      rw [run_call]
      simp only [step, openDir, hlookup]
      split <;> rfl
    have hrun : run step (removeDirAll (depth + 1) p) os = run step (removeDirAllRecursive (depth + 1) none p) os := by
      rw [removeDirAll, run_bind, hlstat]
      rfl
    cases hread : os.may m ownerRead with
    | false =>
      rw [hread] at hopen
      refine ⟨fun h => ?_, fun _ => ⟨IoErrorKind.permissionDenied.toError, os, ?_⟩⟩
      · rw [(hemptiable.mp h).1] at hread
        cases hread
      · rw [hrun, removeDirAllRecursive, run_bind, run_attempt, hopen]
        rfl
    | true =>
      rw [hread] at hopen
      have hnext : run step (removeDirAllRecursive (depth + 1) none p) os =
          run step (removeContents (removeDirAllRecursive depth (some l)) l >>= fun _ =>
            ignoreNotFound (call (.rmdir p))) os := by
        rw [removeDirAllRecursive, run_bind, run_attempt, hopen]
        rfl
      obtain ⟨os', ⟨hall, hcontents, hw⟩ | ⟨hnot, err, hcontents, -⟩⟩ := removeContents_clears
        (fun h h' h'' => removeDirAllRecursive_clears h h' h'') hv hshallow
      · refine ⟨fun _ => ⟨os', hw, ?_⟩, fun h => absurd (hemptiable.mpr ⟨hread, hall⟩) h⟩
        rw [hrun, hnext, run_bind, hcontents]
      · refine ⟨fun h => absurd (hemptiable.mp h).2 hnot, fun _ => ⟨err, os', ?_⟩⟩
        rw [hrun, hnext, run_bind, hcontents]

end Os

end Rsdb
