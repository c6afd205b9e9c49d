/-
# A file in the place of another

A path that leads to a file, or to the empty place a new file is made at, leads
to the file that is put there (`resolve_placed`), whatever links it goes through.
It ends in a name, which is the last one of the place (`resolve_named`).

A file that is written beside another and renamed over it is the one file at the
place (`placed_moveTree`), and one that is removed again was never there
(`sameTree_of_without`).
-/
import Rsdb.Os.Removal

namespace Rsdb

namespace Os

/-! ### The place of a file -/

/-- Neither a directory nor a link. -/
def Found.IsFile : Found → Prop
  | missing _ => True
  | entry _ (.inl (.symlink _)) => False
  | entry _ (.inl _) => True
  | entry _ (.inr _) => False

/-- Neither a directory nor a link is at the place. -/
def FileOrNone (os : Os) (l : Loc) : Prop :=
  ∀ obj, os.view l = some obj → (∀ mode, obj ≠ .inr mode) ∧ ∀ target, obj ≠ .inl (.symlink target)

theorem Found.IsFile.fileOrNone {os : Os} {f : Found} (h : f.IsFile) (hs : f.Sound os) : FileOrNone os f.loc := by
  intro obj hv
  match f, h with
  | .missing l, _ =>
    rw [Found.loc, hs.1] at hv
    cases hv
  | .entry l (.inl (.file _ _)), _ | .entry l (.inl (.other _)), _ =>
    have hobj := Option.some.inj ((hs : os.view l = _).symm.trans hv)
    subst hobj
    exact ⟨fun _ => by simp, fun _ => by simp⟩

section

variable {os os' : Os} {l : Loc} {obj : Obj} (h : Placed os os' l obj) (hold : FileOrNone os l)
  (hnew : ∀ target, obj ≠ .inl (.symlink target))

include h hold hnew

theorem walkWith_placed {follow : Bool} {jump jump' : List Comp → Loc → Except IoErrorKind Found}
    (hjump : ∀ cs l' f, jump cs l' = .ok f → f.loc = l → jump' cs l' = .ok (.entry l obj)) :
    ∀ (cs : List Comp) (l' : Loc) (f : Found), walkWith os follow jump cs l' = .ok f → f.loc = l →
      walkWith os' follow jump' cs l' = .ok (.entry l obj)
  | [], l', f, hw, hl => by
    obtain ⟨obj', -, rfl⟩ := walkWith_nil hw
    obtain rfl : l' = l := hl
    rw [walkWith, h.self]
  | c :: cs, l', f, hw, hl => by
    have ih : ∀ (l' : Loc) (f : Found), walkWith os follow jump cs l' = .ok f → f.loc = l →
        walkWith os' follow jump' cs l' = .ok (.entry l obj) := walkWith_placed hjump cs
    obtain ⟨mode, hdir, hsearch, hcase⟩ := walkWith_cons hw
    have hne : l' ≠ l := fun heq => (hold _ (heq ▸ hdir)).1 mode rfl
    have hv : os'.view l' = some (.inr mode) := (h.other hne).trans hdir
    have hs : os'.may mode ownerSearch = true := (h.toSameProcess.may mode _).trans hsearch
    rcases hcase with ⟨rfl, hnext⟩ | ⟨rfl, hnext⟩ | ⟨name, rfl, hcase⟩
    · rw [walkWith_cur hv hs]
      exact ih _ f hnext hl
    · rw [walkWith_parent hv hs]
      exact ih _ f hnext hl
    · rcases hcase with ⟨-, rfl, rfl⟩ | ⟨target, hlink, hcase⟩ | ⟨obj', hobj, hno, hnext⟩
      · obtain rfl : l' ++ [name] = l := hl
        rw [walkWith_next hv hs h.self hnew, walkWith, h.self]
      · have hne' : l' ++ [name] ≠ l := fun heq => (hold _ (heq ▸ hlink)).2 target rfl
        have hlink' : os'.view (l' ++ [name]) = some (.inl (.symlink target)) := (h.other hne').trans hlink
        rcases hcase with ⟨-, -, rfl⟩ | hnext
        · exact absurd hl hne'
        · by_cases hcs : cs ≠ [] ∨ follow = true
          · rw [walkWith_link hv hs hlink' hcs]
            exact hjump _ _ f hnext hl
          · -- the walk ends at the link, which is not followed
            obtain ⟨rfl, hfollow⟩ : cs = [] ∧ follow = false := by simpa using hcs
            subst hfollow
            have hends : f = .entry (l' ++ [name]) (.inl (.symlink target)) := by
              unfold walkWith at hw
              simpa [hdir, hsearch, hlink] using hw.symm
            rw [hends] at hl
            exact absurd hl hne'
      · by_cases heq : l' ++ [name] = l
        · subst heq
          cases cs with
          | nil => rw [walkWith_next hv hs h.self hnew, walkWith, h.self]
          | cons c cs =>
            obtain ⟨mode', hdir', -⟩ := walkWith_cons hnext
            exact absurd rfl ((hold _ hdir').1 mode')
        · rw [walkWith_next hv hs ((h.other heq).trans hobj) hno]
          exact ih _ f hnext hl

theorem walk_placed {follow : Bool} : ∀ {links : ℕ} {cs : List Comp} {l' : Loc} {f : Found},
    walk os follow links cs l' = .ok f → f.loc = l → walk os' follow links cs l' = .ok (.entry l obj)
  | 0, cs, l', f, hw, hl => walkWith_placed h hold hnew (by simp) cs l' f hw hl
  | _ + 1, cs, l', f, hw, hl => walkWith_placed h hold hnew (fun _ _ _ hw hl => walk_placed hw hl) cs l' f hw hl

/-- A path that leads to a place leads to what is put there. -/
theorem resolve_placed {follow : Bool} {p : Path} {f : Found} (hr : os.resolve follow p = .ok f) (hl : f.loc = l) :
    os'.resolve follow p = .ok (.entry l obj) := by
  unfold resolve at hr ⊢
  split at hr
  · cases hr
  · rename_i hemp
    rw [if_neg hemp, h.cwd]
    exact walk_placed h hold hnew hr hl

end

section

variable {os os' : Os} {l : Loc} (h : SameProcess os os') (hother : ∀ k, k ≠ l → os'.view k = os.view k)
  (hold : FileOrNone os l)

include h hother hold

theorem walkWith_elsewhere {follow : Bool} {jump jump' : List Comp → Loc → Except IoErrorKind Found}
    (hjump : ∀ cs l' f, jump cs l' = .ok f → f.loc ≠ l → jump' cs l' = .ok f) :
    ∀ (cs : List Comp) (l' : Loc) (f : Found), walkWith os follow jump cs l' = .ok f → f.loc ≠ l →
      walkWith os' follow jump' cs l' = .ok f
  | [], l', f, hw, hl => by
    obtain ⟨obj, hobj, rfl⟩ := walkWith_nil hw
    rw [walkWith, hother l' hl, hobj]
  | c :: cs, l', f, hw, hl => by
    have ih : ∀ (l' : Loc) (f : Found), walkWith os follow jump cs l' = .ok f → f.loc ≠ l →
        walkWith os' follow jump' cs l' = .ok f := walkWith_elsewhere hjump cs
    obtain ⟨mode, hdir, hsearch, hcase⟩ := walkWith_cons hw
    have hne : l' ≠ l := fun heq => (hold _ (heq ▸ hdir)).1 mode rfl
    have hv : os'.view l' = some (.inr mode) := (hother l' hne).trans hdir
    have hs : os'.may mode ownerSearch = true := (h.may mode _).trans hsearch
    rcases hcase with ⟨rfl, hnext⟩ | ⟨rfl, hnext⟩ | ⟨name, rfl, hcase⟩
    · rw [walkWith_cur hv hs]
      exact ih _ f hnext hl
    · rw [walkWith_parent hv hs]
      exact ih _ f hnext hl
    · rcases hcase with ⟨hmiss, rfl, rfl⟩ | ⟨target, hlink, hcase⟩ | ⟨obj, hobj, hno, hnext⟩
      · exact walkWith_missing hv hs ((hother _ hl).trans hmiss)
      · have hlink' : os'.view (l' ++ [name]) = some (.inl (.symlink target)) :=
          (hother _ fun heq => (hold _ (heq ▸ hlink)).2 target rfl).trans hlink
        by_cases hcs : cs ≠ [] ∨ follow = true
        · rw [walkWith_link hv hs hlink' hcs]
          rcases hcase with ⟨hnil, hfollow, -⟩ | hnext
          · simp [hnil, hfollow] at hcs
          · exact hjump _ _ f hnext hl
        · -- the walk ends at the link, which is not followed
          obtain ⟨rfl, hfollow⟩ : cs = [] ∧ follow = false := by simpa using hcs
          subst hfollow
          unfold walkWith at hw ⊢
          simpa [hdir, hsearch, hlink, hv, hs, hlink'] using hw
      · by_cases heq : l' ++ [name] = l
        · -- nothing is below what is there
          rw [heq] at hobj hnext
          cases cs with
          | nil =>
            obtain ⟨obj', -, rfl⟩ := walkWith_nil hnext
            exact absurd rfl hl
          | cons c cs =>
            obtain ⟨mode', hdir', -⟩ := walkWith_cons hnext
            exact absurd rfl ((hold _ hdir').1 mode')
        · rw [walkWith_next hv hs ((hother _ heq).trans hobj) hno]
          exact ih _ f hnext hl

theorem walk_elsewhere {follow : Bool} : ∀ {links : ℕ} {cs : List Comp} {l' : Loc} {f : Found},
    walk os follow links cs l' = .ok f → f.loc ≠ l → walk os' follow links cs l' = .ok f
  | 0, cs, l', f, hw, hl => walkWith_elsewhere h hother hold (by simp) cs l' f hw hl
  | _ + 1, cs, l', f, hw, hl =>
    walkWith_elsewhere h hother hold (fun _ _ _ hw hl => walk_elsewhere hw hl) cs l' f hw hl

/-- A path that leads elsewhere leads there whatever is at the place. -/
theorem resolve_elsewhere {follow : Bool} {p : Path} {f : Found} (hr : os.resolve follow p = .ok f)
    (hl : f.loc ≠ l) : os'.resolve follow p = .ok f := by
  unfold resolve at hr ⊢
  split at hr
  · cases hr
  · rename_i hemp
    rw [if_neg hemp, h.cwd]
    exact walk_elsewhere h hother hold hr hl

end

/-! ### Its name -/

/-- The parent of a directory is one. -/
theorem dir_dropLast {os : Os} {l : Loc} {mode : ℕ} (h : os.view l = some (.inr mode)) :
    ∃ mode, os.view l.dropLast = some (.inr mode) := by
  rcases room_of_view h with rfl | hdir
  · exact ⟨mode, h⟩
  · exact hdir

theorem walkWith_named {os : Os} {jump : List Comp → Loc → Except IoErrorKind Found}
    (hjump : ∀ cs l f, jump cs l = .ok f → f.IsFile → cs ≠ [] →
      ∃ n, cs.getLast? = some (.normal n) ∧ f.loc.getLast? = some n) :
    ∀ (cs : List Comp) (l : Loc) (f : Found), walkWith os false jump cs l = .ok f → f.IsFile → cs ≠ [] →
      ∃ n, cs.getLast? = some (.normal n) ∧ f.loc.getLast? = some n
  | [c], l, f, hw, hf, _ => by
    have hnotDir : ∀ {l : Loc}, (∃ mode, os.view l = some (.inr mode)) → walkWith os false jump [] l ≠ .ok f := by
      rintro l ⟨mode, hdir⟩ hnil
      obtain ⟨obj, hobj, rfl⟩ := walkWith_nil hnil
      obtain rfl := Option.some.inj (hobj.symm.trans hdir)
      exact hf
    obtain ⟨mode, hdir, hsearch, ⟨-, hnext⟩ | ⟨-, hnext⟩ | ⟨name, rfl, hcase⟩⟩ := walkWith_cons hw
    · exact absurd hnext (hnotDir ⟨mode, hdir⟩)
    · exact absurd hnext (hnotDir (dir_dropLast hdir))
    · refine ⟨name, rfl, ?_⟩
      rcases hcase with ⟨-, -, rfl⟩ | ⟨target, hlink, -⟩ | ⟨obj, -, -, hnext⟩
      · exact List.getLast?_concat
      · have hends : f = .entry (l ++ [name]) (.inl (.symlink target)) := by
          unfold walkWith at hw
          simpa [hdir, hsearch, hlink] using hw.symm
        exact (hends ▸ hf : (Found.entry (l ++ [name]) (.inl (.symlink target))).IsFile).elim
      · obtain ⟨obj', -, rfl⟩ := walkWith_nil hnext
        exact List.getLast?_concat
  | c :: d :: cs, l, f, hw, hf, _ => by
    have ih : ∀ l, walkWith os false jump (d :: cs) l = .ok f →
        ∃ n, (d :: cs).getLast? = some (.normal n) ∧ f.loc.getLast? = some n :=
      fun l hw => walkWith_named hjump (d :: cs) l f hw hf (List.cons_ne_nil d cs)
    rw [List.getLast?_cons_cons]
    obtain ⟨mode, -, -, ⟨-, hnext⟩ | ⟨-, hnext⟩ | ⟨name, -, hcase⟩⟩ := walkWith_cons hw
    · exact ih _ hnext
    · exact ih _ hnext
    · rcases hcase with ⟨-, hnil, -⟩ | ⟨target, -, ⟨hnil, -⟩ | hnext⟩ | ⟨obj, -, -, hnext⟩
      · cases hnil
      · cases hnil
      · obtain ⟨n, hlast, hloc⟩ := hjump _ _ f hnext hf (by simp)
        rw [List.getLast?_append_of_ne_nil _ (List.cons_ne_nil d cs)] at hlast
        exact ⟨n, hlast, hloc⟩
      · exact ih _ hnext

theorem walk_named {os : Os} : ∀ {links : ℕ} {cs : List Comp} {l : Loc} {f : Found},
    walk os false links cs l = .ok f → f.IsFile → cs ≠ [] →
      ∃ n, cs.getLast? = some (.normal n) ∧ f.loc.getLast? = some n
  | 0, _, _, _, hw, hf, hcs => walkWith_named (by simp) _ _ _ hw hf hcs
  | _ + 1, _, _, _, hw, hf, hcs => walkWith_named (fun _ _ _ hw hf hcs => walk_named hw hf hcs) _ _ _ hw hf hcs

/-- A path to a file ends in the last name of its place. -/
theorem resolve_named {os : Os} (hroot : ∃ mode, os.view [] = some (.inr mode)) {p : Path} {f : Found}
    (hr : os.resolve false p = .ok f) (hf : f.IsFile) :
    p.dot = false ∧ ∃ n, p.fileName = some n ∧ f.loc.getLast? = some n := by
  unfold resolve at hr
  split at hr
  · cases hr
  · rename_i hemp
    have hcs : kernelComps p ≠ [] := by
      intro hnil
      obtain ⟨hcomps, -⟩ := List.append_eq_nil_iff.mp hnil
      have habs : p.abs = true := by simpa [Path.isEmpty_eq, hcomps] using hemp
      rw [hnil, habs, if_pos rfl] at hr
      obtain ⟨obj, hobj, rfl⟩ := walkWith_nil hr
      obtain ⟨mode, hdir⟩ := hroot
      obtain rfl := Option.some.inj (hobj.symm.trans hdir)
      exact hf
    obtain ⟨n, hlast, hloc⟩ := walk_named hr hf hcs
    cases hdot : p.dot with
    | true =>
      rw [kernelComps, hdot, if_pos rfl, List.getLast?_concat] at hlast
      cases hlast
    | false =>
      rw [kernelComps, hdot, if_neg Bool.false_ne_true, List.append_nil] at hlast
      exact ⟨rfl, n, by rw [Path.fileName, hlast], hloc⟩

/-! ### Renaming over it -/

/-- A file that is new beside the place and is renamed to it is the file there. -/
theorem placed_moveTree {os os₁ : Os} {src dst : Loc} {mode : ℕ} {content : Bytes} (hnew : os.view src = none)
    (hplaced : Placed os os₁ src (.inl (.file mode content))) (hold : FileOrNone os dst) (hsrc : ¬ src <+: dst)
    (hdst : ¬ dst <+: src) (hmay : os₁.mayChange dst = true) :
    Placed os (os₁.moveTree src dst) dst (.inl (.file mode content)) := by
  obtain ⟨hprocess, hview⟩ := view_moveTree hplaced.self hsrc hdst hmay
  have hbelow : ∀ n k, os.view (dst ++ n :: k) = none := fun n k => by
    cases hobj : os.view dst with
    | none => exact DirTree.view_append_eq_none hobj (n :: k)
    | some obj =>
      cases obj with
      | inl leaf => exact DirTree.view_append_of_leaf hobj n k
      | inr mode => exact absurd rfl ((hold _ hobj).1 mode)
  refine ⟨hplaced.toSameProcess.trans hprocess, fun k => ?_⟩
  rw [hview]
  by_cases hk : dst <+: k
  · obtain ⟨k, rfl⟩ := hk
    rw [if_pos (List.prefix_append _ _), List.drop_left]
    cases k with
    | nil => rw [List.append_nil, List.append_nil, if_pos rfl, hplaced.self]
    | cons n k =>
      rw [if_neg (by simp), hbelow]
      exact DirTree.view_append_of_leaf hplaced.self n k
  · rw [if_neg hk, if_neg fun heq : k = dst => hk (heq ▸ List.prefix_rfl)]
    by_cases hk' : src <+: k
    · obtain ⟨k, rfl⟩ := hk'
      rw [if_pos (List.prefix_append _ _)]
      exact (DirTree.view_append_eq_none hnew k).symm
    · rw [if_neg hk', hplaced.other fun heq : k = src => hk' (heq ▸ List.prefix_rfl)]

/-- A new file that is removed again leaves the tree as it was. -/
theorem sameTree_of_without {os os₁ os₂ : Os} {l : Loc} {obj : Obj} (hnew : os.view l = none)
    (hplaced : Placed os os₁ l obj) (hgone : Without (l <+: ·) os₁ os₂) : SameTree os os₂ := by
  refine ⟨hplaced.toSameProcess.trans hgone.toSameProcess, fun k => ?_⟩
  by_cases hk : l <+: k
  · rw [hgone.taken k hk]
    obtain ⟨k, rfl⟩ := hk
    exact (DirTree.view_append_eq_none hnew k).symm
  · rw [hgone.kept k hk, hplaced.other fun heq : k = l => hk (heq ▸ List.prefix_rfl)]

end Os

end Rsdb
