/-
# Taking away and moving

What `unlink` and `rmdir` take away is gone, and the rest of the tree is as it
was (`Without`). Where a part of the tree is gone, a path that still leads
somewhere led there before (`resolve_less`). A `rename` that succeeds puts what
was at the source at the destination (`rename_eq_ok`, `view_moveTree`).
-/
import Rsdb.Os.Below

namespace Rsdb

/-- The call only looks: it opens nothing for writing and changes no name and no
permission bit. -/
def Call.ReadsOnly : Call → Prop
  | stat _ | lstat _ | openRead _ | read _ _ | readDir _ => True
  | _ => False

namespace Os

/-! ### The same tree -/

/-- What a path leads to depends on the tree and the process. -/
structure SameTree (os os' : Os) : Prop extends SameProcess os os' where
  view : ∀ k, os'.view k = os.view k

theorem SameTree.refl (os : Os) : SameTree os os := ⟨SameProcess.refl os, fun _ => rfl⟩

theorem SameTree.metadata {os os' : Os} (h : SameTree os os') (l : Loc) (obj : Obj) :
    os'.metadata l obj = os.metadata l obj := by
  have hview : os'.view = os.view := funext h.view
  rcases obj with (_ | _ | _) | _ <;> simp [Os.metadata, Os.size, h.dirSize, hview]

theorem SameTree.trans {a b c : Os} (h : SameTree a b) (h' : SameTree b c) : SameTree a c :=
  ⟨h.toSameProcess.trans h'.toSameProcess, fun k => (h'.view k).trans (h.view k)⟩

theorem walkWith_congr {os os' : Os} (h : SameTree os os') {follow : Bool}
    {jump jump' : List Comp → Loc → Except IoErrorKind Found} (hjump : ∀ cs l, jump' cs l = jump cs l) :
    ∀ (cs : List Comp) (l : Loc), walkWith os' follow jump' cs l = walkWith os follow jump cs l
  | [], l => by rw [walkWith, walkWith, h.view]
  | c :: cs, l => by
    have ih : ∀ l, walkWith os' follow jump' cs l = walkWith os follow jump cs l := walkWith_congr h hjump cs
    simp only [walkWith, h.view, h.toSameProcess.may, ih, hjump]

theorem walk_congr {os os' : Os} (h : SameTree os os') {follow : Bool} : ∀ (links : ℕ) (cs : List Comp) (l : Loc),
    walk os' follow links cs l = walk os follow links cs l
  | 0 => walkWith_congr h fun _ _ => rfl
  | links + 1 => walkWith_congr h (walk_congr h links)

theorem SameTree.resolve {os os' : Os} (h : SameTree os os') (follow : Bool) (p : Path) :
    os'.resolve follow p = os.resolve follow p := by
  rw [Os.resolve, Os.resolve, h.cwd, walk_congr h]

theorem SameTree.lookup {os os' : Os} (h : SameTree os os') (follow : Bool) (p : Path) :
    os'.lookup follow p = os.lookup follow p := by
  rw [Os.lookup, Os.lookup, h.resolve]

theorem SameProcess.mayMove {os os' : Os} (h : SameProcess os os') (src dst : Loc) :
    ∀ obj : Obj, os'.mayMove src dst obj = os.mayMove src dst obj
  | .inl _ => rfl
  | .inr mode => by rw [Os.mayMove, Os.mayMove, h.may]

theorem SameTree.step_lstat {os os' : Os} (h : SameTree os os') (p : Path) :
    step (.lstat p) os' =
      (((os.lookup false p).map fun r => os.metadata r.1 r.2).mapError IoErrorKind.toError, os') := by
  rw [Os.step_lstat, h.lookup, show (fun r : Loc × Obj => os'.metadata r.1 r.2) = fun r => os.metadata r.1 r.2 from
    funext fun r => h.metadata r.1 r.2]

theorem SameTree.mayChange {os os' : Os} (h : SameTree os os') (l : Loc) : os'.mayChange l = os.mayChange l := by
  unfold Os.mayChange
  rw [h.view]
  cases os.view l.dropLast with
  | none => rfl
  | some obj =>
    cases obj with
    | inl leaf => rfl
    | inr mode => simp only [h.toSameProcess.may]

theorem step_readsOnly {c : Call} (h : c.ReadsOnly) (os : Os) : SameTree os (os.step c).2 := by
  cases c with
  | stat p =>
    rw [Os.step_stat]
    cases os.lookup true p <;> exact SameTree.refl os
  | lstat p =>
    rw [Os.step_lstat]
    cases os.lookup false p <;> exact SameTree.refl os
  | openRead p =>
    show SameTree os (os.answer (os.openRead p)).2
    unfold openRead
    split
    · exact SameTree.refl os
    · split
      · exact ⟨⟨rfl, rfl, rfl, rfl⟩, fun _ => rfl⟩
      · exact SameTree.refl os
    · exact SameTree.refl os
    · exact SameTree.refl os
  | read fd n =>
    show SameTree os (os.answer (os.read fd n)).2
    unfold Os.read
    split
    · exact SameTree.refl os
    · split
      · exact SameTree.refl os
      · exact ⟨⟨rfl, rfl, rfl, rfl⟩, fun _ => rfl⟩
  | readDir p =>
    show SameTree os (os.answer ((os.readDir p).map fun names => (names, os))).2
    cases os.readDir p <;> exact SameTree.refl os
  | mkdir _ | openWrite _ _ | createNew _ _ | write _ _ | chmod _ _ | rename _ _ | unlink _ | rmdir _ | openDir _ _
  | listDir _ | unlinkAt _ _ | rmdirAt _ _ => exact h.elim

/-- Looking leaves the tree as it is. -/
theorem run_readsOnly {ε α : Type} : ∀ {x : Prog Call Call.Answer ε α}, Prog.All Call.ReadsOnly x →
    ∀ os : Os, SameTree os (Prog.run Os.step x os).2
  | .pure _, _, os => SameTree.refl os
  | .fail _, _, os => SameTree.refl os
  | .call _ _, h, os => (step_readsOnly h.1 os).trans (run_readsOnly (h.2 _) _)

/-! ### Less of the tree -/

/-- Some of the tree may be gone. -/
structure Less (os os' : Os) : Prop extends SameProcess os os' where
  view : ∀ k, os'.view k = os.view k ∨ os'.view k = none

theorem SameTree.less {os os' : Os} (h : SameTree os os') : Less os os' where
  toSameProcess := h.toSameProcess
  view k := Or.inl (h.view k)

theorem Less.view_of_some {os os' : Os} (h : Less os os') {k : Loc} {obj : Obj} (hv : os'.view k = some obj) :
    os.view k = some obj := by
  rcases h.view k with heq | hnone
  · exact heq ▸ hv
  · rw [hnone] at hv
    cases hv

section

variable {os os' : Os} (h : Less os os') {follow : Bool} {f : Found} (hf : ∀ k, f = .missing k → os.view k = none)

include h hf

theorem walkWith_less {jump jump' : List Comp → Loc → Except IoErrorKind Found}
    (hjump : ∀ cs l, jump' cs l = .ok f → jump cs l = .ok f) :
    ∀ (cs : List Comp) (l : Loc), walkWith os' follow jump' cs l = .ok f → walkWith os follow jump cs l = .ok f
  | [], l, hw => by
    obtain ⟨obj, hv, rfl⟩ := walkWith_nil hw
    rw [walkWith, h.view_of_some hv]
  | c :: cs, l, hw => by
    have ih : ∀ l, walkWith os' follow jump' cs l = .ok f → walkWith os follow jump cs l = .ok f :=
      walkWith_less hjump cs
    obtain ⟨mode, hdir, hsearch, hcase⟩ := walkWith_cons hw
    have hv := h.view_of_some hdir
    have hs : os.may mode ownerSearch = true := (h.toSameProcess.may mode _).symm.trans hsearch
    rcases hcase with ⟨rfl, hnext⟩ | ⟨rfl, hnext⟩ | ⟨name, rfl, hcase⟩
    · rw [walkWith_cur hv hs]
      exact ih _ hnext
    · rw [walkWith_parent hv hs]
      exact ih _ hnext
    · rcases hcase with ⟨-, rfl, rfl⟩ | ⟨target, hlink, ⟨rfl, rfl, rfl⟩ | hnext⟩ | ⟨obj, hobj, hno, hnext⟩
      · exact walkWith_missing hv hs (hf _ rfl)
      · unfold walkWith
        simp [hv, hs, h.view_of_some hlink]
      · by_cases hcs : cs ≠ [] ∨ follow = true
        · rw [walkWith_link hv hs (h.view_of_some hlink) hcs]
          exact hjump _ _ hnext
        · obtain ⟨rfl, hfollow⟩ : cs = [] ∧ follow = false := by simpa using hcs
          subst hfollow
          unfold walkWith at hw
          unfold walkWith
          simpa [hdir, hsearch, hlink, hv, hs, h.view_of_some hlink] using hw
      · rw [walkWith_next hv hs (h.view_of_some hobj) hno]
        exact ih _ hnext

theorem walk_less : ∀ {links : ℕ} {cs : List Comp} {l : Loc}, walk os' follow links cs l = .ok f →
    walk os follow links cs l = .ok f
  | 0, cs, l, hw => walkWith_less h hf (by simp) cs l hw
  | _ + 1, cs, l, hw => walkWith_less h hf (fun _ _ hw => walk_less hw) cs l hw

/-- Where a path leads in what is left, it led before. -/
theorem resolve_less {p : Path} (hr : os'.resolve follow p = .ok f) : os.resolve follow p = .ok f := by
  unfold resolve at hr ⊢
  rw [h.cwd] at hr
  split at hr
  · cases hr
  · rename_i hemp
    rw [if_neg hemp]
    exact walk_less h hf hr

end

section

variable {os os' : Os} (h : Less os os') {l : Loc} {obj : Obj} (hl : os.view l = some obj)

include h hl

theorem walkWith_less_found {jump jump' : List Comp → Loc → Except IoErrorKind Found}
    (hjump : ∀ cs l', jump' cs l' = .ok (.missing l) → jump cs l' = .ok (.entry l obj)) :
    ∀ (cs : List Comp) (l' : Loc), walkWith os' false jump' cs l' = .ok (.missing l) →
      walkWith os false jump cs l' = .ok (.entry l obj)
  | [], l', hw => by
    obtain ⟨obj', -, hentry⟩ := walkWith_nil hw
    cases hentry
  | c :: cs, l', hw => by
    have ih : ∀ l', walkWith os' false jump' cs l' = .ok (.missing l) →
        walkWith os false jump cs l' = .ok (.entry l obj) := walkWith_less_found hjump cs
    obtain ⟨mode, hdir, hsearch, hcase⟩ := walkWith_cons hw
    have hv := h.view_of_some hdir
    have hs : os.may mode ownerSearch = true := (h.toSameProcess.may mode _).symm.trans hsearch
    rcases hcase with ⟨rfl, hnext⟩ | ⟨rfl, hnext⟩ | ⟨name, rfl, hcase⟩
    · rw [walkWith_cur hv hs]
      exact ih _ hnext
    · rw [walkWith_parent hv hs]
      exact ih _ hnext
    · rcases hcase with ⟨-, rfl, hmiss⟩ | ⟨target, hlink, ⟨-, -, hmiss⟩ | hnext⟩ | ⟨obj', hobj, hno, hnext⟩
      · obtain rfl := Found.missing.inj hmiss
        by_cases hlink : ∃ target, obj = .inl (.symlink target)
        · obtain ⟨target, rfl⟩ := hlink
          unfold walkWith
          simp [hv, hs, hl]
        · rw [walkWith_next hv hs hl fun target heq => hlink ⟨target, heq⟩, walkWith, hl]
      · cases hmiss
      · have hcs : cs ≠ [] := by
          rintro rfl
          unfold walkWith at hw
          simp [hdir, hsearch, hlink] at hw
        rw [walkWith_link hv hs (h.view_of_some hlink) (Or.inl hcs)]
        exact hjump _ _ hnext
      · rw [walkWith_next hv hs (h.view_of_some hobj) hno]
        exact ih _ hnext

theorem walk_less_found : ∀ {links : ℕ} {cs : List Comp} {l' : Loc}, walk os' false links cs l' = .ok (.missing l) →
    walk os false links cs l' = .ok (.entry l obj)
  | 0, cs, l', hw => walkWith_less_found h hl (by simp) cs l' hw
  | _ + 1, cs, l', hw => walkWith_less_found h hl (fun _ _ hw => walk_less_found hw) cs l' hw

/-- Where a path leads to an empty place in what is left, it led to what was there. -/
theorem resolve_less_found {p : Path} (hr : os'.resolve false p = .ok (.missing l)) :
    os.resolve false p = .ok (.entry l obj) := by
  unfold resolve at hr ⊢
  rw [h.cwd] at hr
  split at hr
  · cases hr
  · rename_i hemp
    rw [if_neg hemp]
    exact walk_less_found h hl hr

end

/-- What a path names in what is left, it named before. -/
theorem Less.lookup_ok {os os' : Os} (h : Less os os') {follow : Bool} {p : Path} {l : Loc} {obj : Obj}
    (hlookup : os'.lookup follow p = .ok (l, obj)) : os.lookup follow p = .ok (l, obj) := by
  obtain ⟨hr, -, hslash⟩ := lookup_eq_ok hlookup
  have hr' : os.resolve (follow || p.slash) p = .ok (.entry l obj) := resolve_less h (by simp) hr
  have hdir : ¬ (p.slash = true ∧ obj.isLeft = true) := by
    rintro ⟨hs, hleft⟩
    rw [hslash hs] at hleft
    cases hleft
  rw [lookup, hr']
  exact if_neg hdir

/-! ### A slash at the end -/

/-- What does not end at a link is found the same way if a link would be followed. -/
theorem resolve_follow {os : Os} {p : Path} (h : ∀ l target, os.resolve false p ≠ .ok (.entry l (.inl (.symlink target))))
    (follow : Bool) : os.resolve follow p = os.resolve false p := by
  cases follow with
  | false => rfl
  | true =>
    unfold resolve at h ⊢
    split
    · rfl
    · rename_i hemp
      refine walk_follow os _ _ _ fun l target hw => h l target ?_
      rw [if_neg hemp]
      exact hw

/-- A path that leads to something is looked up there, if it has no slash at its
end or leads to a directory. -/
theorem lookup_of_resolve {os : Os} {p : Path} {l : Loc} {obj : Obj} (hr : os.resolve false p = .ok (.entry l obj))
    (hslash : obj.isLeft = true → p.slash = false) : os.lookup false p = .ok (l, obj) := by
  have hsame : os.resolve (false || p.slash) p = .ok (.entry l obj) := by
    rw [Bool.false_or]
    cases hp : p.slash with
    | false => exact hr
    | true =>
      rw [resolve_follow fun l' target heq => ?_, hr]
      rw [hr] at heq
      cases heq
      rw [hslash rfl] at hp
      cases hp
  have hdir : ¬ (p.slash = true ∧ obj.isLeft = true) := by
    rintro ⟨hp, hleft⟩
    rw [hslash hleft] at hp
    cases hp
  rw [lookup, hsame]
  simp only [hdir, ↓reduceIte]

/-! ### What is taken away -/

/-- The places of `gone` are empty, and the rest of the tree is as it was. -/
structure Without (gone : Loc → Prop) (os os' : Os) : Prop extends SameProcess os os' where
  taken : ∀ k, gone k → os'.view k = none
  kept : ∀ k, ¬ gone k → os'.view k = os.view k

theorem Without.less {gone : Loc → Prop} {os os' : Os} (h : Without gone os os') : Less os os' where
  toSameProcess := h.toSameProcess
  view k := by
    by_cases hk : gone k
    · exact Or.inr (h.taken k hk)
    · exact Or.inl (h.kept k hk)

theorem Without.trans {P Q : Loc → Prop} {a b c : Os} (h : Without P a b) (h' : Without Q b c) :
    Without (fun k => P k ∨ Q k) a c where
  toSameProcess := h.toSameProcess.trans h'.toSameProcess
  taken k hk := by
    by_cases hq : Q k
    · exact h'.taken k hq
    · rw [h'.kept k hq]
      exact h.taken k (hk.resolve_right hq)
  kept k hk := by
    obtain ⟨hp, hq⟩ := not_or.mp hk
    rw [h'.kept k hq, h.kept k hp]

/-- Empty places may be counted among those that are gone. -/
theorem Without.widen {P Q : Loc → Prop} {os os' : Os} (h : Without P os os') (hsub : ∀ k, P k → Q k)
    (hnone : ∀ k, Q k → ¬ P k → os.view k = none) : Without Q os os' where
  toSameProcess := h.toSameProcess
  taken k hk := by
    by_cases hp : P k
    · exact h.taken k hp
    · exact (h.kept k hp).trans (hnone k hk hp)
  kept k hk := h.kept k (mt (hsub k) hk)

theorem SameTree.without {gone : Loc → Prop} {a b c : Os} (h : SameTree a b) (h' : Without gone b c) :
    Without gone a c where
  toSameProcess := h.toSameProcess.trans h'.toSameProcess
  taken := h'.taken
  kept k hk := (h'.kept k hk).trans (h.view k)

/-- The same part taken away of the same tree leaves the same. -/
theorem Without.sameTree {gone : Loc → Prop} {os a b : Os} (ha : Without gone os a) (hb : Without gone os b) :
    SameTree a b where
  toSameProcess := ha.toSameProcess.symm.trans hb.toSameProcess
  view k := by
    by_cases hk : gone k
    · rw [ha.taken k hk, hb.taken k hk]
    · rw [ha.kept k hk, hb.kept k hk]

theorem sameTree_orphan (os : Os) (l : Loc) : SameTree os (os.orphan l) := by
  unfold orphan
  split <;> exact ⟨⟨rfl, rfl, rfl, rfl⟩, fun _ => rfl⟩

theorem without_put {os : Os} {l : Loc} (hl : l ≠ []) {obj : Obj} (hv : os.view l = some obj) :
    Without (l <+: ·) os (os.put l none) := by
  have hroom := (room_of_view hv).resolve_left hl
  refine ⟨⟨rfl, rfl, rfl, rfl⟩, fun k hk => ?_, fun k hk => ?_⟩
  · show (os.tree.put l none).view k = none
    rw [DirTree.view_put none os.ordered hl hroom, if_pos hk]
    rfl
  · exact DirTree.view_put_of_not_prefix none os.ordered hk

/-- A directory that may be changed is one. -/
theorem mayChange_dir {os : Os} {l : Loc} (h : os.mayChange l = true) :
    ∃ mode, os.view l.dropLast = some (.inr mode) ∧ os.may mode ownerWrite = true ∧ os.may mode ownerSearch = true := by
  unfold mayChange at h
  split at h
  · rename_i mode hv
    exact ⟨mode, hv, by simpa using h⟩
  · cases h

theorem mayChange_concat {os : Os} {dir : Loc} {mode : ℕ} (hv : os.view dir = some (.inr mode)) (n : Name) :
    os.mayChange (dir ++ [n]) = (os.may mode ownerWrite && os.may mode ownerSearch) := by
  rw [mayChange, List.dropLast_concat, hv]

/-- A name at the end of a path is the last one of where it leads, if a link
there is not followed. -/
theorem walkWith_last {os : Os} {n : Name} {jump : List Comp → Loc → Except IoErrorKind Found}
    (hjump : ∀ cs l f, jump (cs ++ [.normal n]) l = .ok f → f.loc ≠ []) :
    ∀ (cs : List Comp) (l : Loc) (f : Found), walkWith os false jump (cs ++ [.normal n]) l = .ok f → f.loc ≠ []
  | [], l, f, h => by
    obtain ⟨mode, hdir, hsearch, ⟨hc, -⟩ | ⟨hc, -⟩ | ⟨name, hc, hcase⟩⟩ := walkWith_cons h
    · cases hc
    · cases hc
    · obtain rfl := Comp.normal.inj hc
      rcases hcase with ⟨-, -, rfl⟩ | ⟨target, hlink, -⟩ | ⟨obj, -, -, hw⟩
      · simp [Found.loc]
      · have hentry : f = .entry (l ++ [n]) (.inl (.symlink target)) := by
          unfold walkWith at h
          simpa [hdir, hsearch, hlink] using h.symm
        simp [hentry, Found.loc]
      · obtain ⟨obj, -, rfl⟩ := walkWith_nil hw
        simp [Found.loc]
  | c :: cs, l, f, h => by
    have ih : ∀ l, walkWith os false jump (cs ++ [.normal n]) l = .ok f → f.loc ≠ [] :=
      fun l => walkWith_last hjump cs l f
    obtain ⟨mode, -, -, ⟨-, hw⟩ | ⟨-, hw⟩ | ⟨name, -, hcase⟩⟩ := walkWith_cons h
    · exact ih _ hw
    · exact ih _ hw
    · rcases hcase with ⟨-, hnil, -⟩ | ⟨target, -, ⟨hnil, -⟩ | hw⟩ | ⟨obj, -, -, hw⟩
      · simp at hnil
      · simp at hnil
      · refine hjump (targetComps target ++ cs) (if target.abs then [] else l) f ?_
        rw [List.append_assoc]
        exact hw
      · exact ih _ hw

theorem walk_last {os : Os} {n : Name} : ∀ {links : ℕ} {cs : List Comp} {l : Loc} {f : Found},
    walk os false links (cs ++ [.normal n]) l = .ok f → f.loc ≠ []
  | 0, _, _, _, h => walkWith_last (by simp) _ _ _ h
  | _ + 1, _, _, _, h => walkWith_last (fun _ _ _ h => walk_last h) _ _ _ h

/-- A path that ends in a name does not lead to the root. -/
theorem resolve_last {os : Os} {p : Path} {f : Found} (hname : p.fileName ≠ none) (hdot : p.dot = false)
    (h : os.resolve false p = .ok f) : f.loc ≠ [] := by
  obtain ⟨n, hlast⟩ : ∃ n, p.comps.getLast? = some (.normal n) := by
    unfold Path.fileName at hname
    split at hname
    · exact ⟨_, ‹_›⟩
    · exact absurd rfl hname
  obtain ⟨cs, hcs⟩ := List.getLast?_eq_some_iff.mp hlast
  unfold resolve at h
  split at h
  · cases h
  · rw [kernelComps, hdot, if_neg (by simp), List.append_nil, hcs] at h
    exact walk_last h

/-! ### The calls -/

theorem unlink_leaf {os : Os} {p : Path} {l : Loc} {leaf : Leaf} (hr : os.resolve false p = .ok (.entry l (.inl leaf)))
    (hslash : p.slash = false) :
    if os.mayChange l then ∃ os', os.unlink p = .ok os' ∧ Without (l <+: ·) os os'
    else os.unlink p = .error .permissionDenied := by
  have heq : os.unlink p =
      if os.mayChange l then .ok ((os.orphan l).put l none) else .error .permissionDenied := by
    simp only [unlink, hr, hslash, Bool.false_eq_true, ↓reduceIte]
  have hv : os.view l = some (.inl leaf) := resolve_sound hr
  split
  · rename_i hmay
    have hl : l ≠ [] := by
      rintro rfl
      obtain ⟨mode, hdir, -⟩ := mayChange_dir hmay
      rw [List.dropLast_nil, hv] at hdir
      cases hdir
    have horphan := sameTree_orphan os l
    refine ⟨_, by rw [heq, if_pos hmay], horphan.without (without_put hl ((horphan.view l).trans hv))⟩
  · rename_i hmay
    rw [heq, if_neg hmay]

/-- The names in a directory are the places below it. -/
theorem children_eq_nil {os : Os} {l : Loc} {mode : ℕ} (hv : os.view l = some (.inr mode)) :
    (os.tree.sub l).elim [] DirTree.children = [] ↔ ∀ n, os.view (l ++ [n]) = none := by
  obtain ⟨cs, htree, -, hview⟩ := children_of_dir hv
  simp only [htree, Option.elim_some, DirTree.children, hview, Option.map_eq_none_iff]
  constructor
  · rintro rfl n
    rfl
  · intro hnone
    cases cs with
    | nil => rfl
    | cons c cs => simpa [DirTree.child] using hnone c.1

theorem rmdir_empty {os : Os} {p : Path} {l : Loc} {mode : ℕ} (hr : os.resolve false p = .ok (.entry l (.inr mode)))
    (hname : p.fileName ≠ none) (hdot : p.dot = false) (hempty : ∀ n, os.view (l ++ [n]) = none) :
    if os.mayChange l then ∃ os', os.rmdir p = .ok os' ∧ Without (l <+: ·) os os'
    else os.rmdir p = .error .permissionDenied := by
  have hv : os.view l = some (.inr mode) := resolve_sound hr
  have heq : os.rmdir p = if os.mayChange l then .ok (os.put l none) else .error .permissionDenied := by
    simp only [rmdir, hr, hname, hdot, (children_eq_nil hv).mpr hempty, ne_eq, not_true_eq_false, or_self,
      Bool.false_eq_true, ↓reduceIte]
  split
  · rename_i hmay
    exact ⟨_, by rw [heq, if_pos hmay], without_put (resolve_last hname hdot hr) hv⟩
  · rename_i hmay
    rw [heq, if_neg hmay]

theorem rmdir_congr {os os' : Os} (h : SameTree os os') (p : Path) :
    (os'.rmdir p).map (fun _ => ()) = (os.rmdir p).map fun _ => () := by
  unfold rmdir
  rw [h.resolve]
  cases hr : os.resolve false p with
  | error e => rfl
  | ok f =>
    cases f with
    | missing l => rfl
    | entry l obj =>
      cases obj with
      | inl leaf => rfl
      | inr mode =>
        have hv : os.view l = some (.inr mode) := resolve_sound hr
        have hempty : (os'.tree.sub l).elim [] DirTree.children = [] ↔ (os.tree.sub l).elim [] DirTree.children = [] := by
          rw [children_eq_nil hv, children_eq_nil ((h.view l).trans hv)]
          simp only [h.view]
        simp only [ne_eq, hempty, h.mayChange]
        split_ifs <;> rfl

/-- Nothing that is there is called not found. -/
theorem rmdir_notFound {os : Os} {p : Path} (h : os.rmdir p = .error .notFound) :
    ∀ l obj, os.resolve false p ≠ .ok (.entry l obj) := by
  intro l obj hr
  rw [rmdir, hr] at h
  cases obj with
  | inl leaf => cases h
  | inr mode =>
    simp only at h
    split_ifs at h <;> cases h

/-- What a directory that is taken away was. -/
theorem rmdir_eq_ok {os os' : Os} {p : Path} (h : os.rmdir p = .ok os') :
    ∃ l mode, os.resolve false p = .ok (.entry l (.inr mode)) ∧ Without (l <+: ·) os os' := by
  unfold rmdir at h
  split at h
  · cases h
  · cases h
  · cases h
  · rename_i l mode hr
    split at h
    · cases h
    · rename_i hname
      obtain ⟨hname, hdot⟩ := not_or.mp hname
      split at h
      · cases h
      · split at h
        · cases h
          exact ⟨l, mode, hr, without_put (resolve_last hname (by simpa using hdot) hr) (resolve_sound hr)⟩
        · cases h

/-! ### A name in an open directory -/

section Child

variable {os : Os} {dir : Loc} {mode : ℕ} (hdir : os.view dir = some (.inr mode)) (n : Name)

include hdir

theorem resolve_child (hsearch : os.may mode ownerSearch = true) :
    (os.startingIn dir).resolve false (Path.ofNames [n]) = .ok (os.foundAt (dir ++ [n])) := by
  have hv : (os.startingIn dir).view dir = some (.inr mode) := hdir
  have hs : (os.startingIn dir).may mode ownerSearch = true := hsearch
  rw [resolve_ofNames _ _ (List.cons_ne_nil n [])]
  show walkWith (os.startingIn dir) false _ [.normal n] dir = _
  cases hobj : os.view (dir ++ [n]) with
  | none =>
    rw [walkWith_missing hv hs (show (os.startingIn dir).view _ = none from hobj), foundAt, hobj]
  | some obj =>
    have hobj' : (os.startingIn dir).view (dir ++ [n]) = some obj := hobj
    by_cases hlink : ∃ target, obj = .inl (.symlink target)
    · obtain ⟨target, rfl⟩ := hlink
      unfold walkWith
      simp [hv, hs, hobj', foundAt, hobj]
    · rw [walkWith_next hv hs hobj' fun target heq => hlink ⟨target, heq⟩, walkWith, hobj', foundAt, hobj]

theorem resolve_child_denied (hsearch : os.may mode ownerSearch = false) :
    (os.startingIn dir).resolve false (Path.ofNames [n]) = .error .permissionDenied := by
  have hv : (os.startingIn dir).view dir = some (.inr mode) := hdir
  have hs : (os.startingIn dir).may mode ownerSearch = false := hsearch
  rw [resolve_ofNames _ _ (List.cons_ne_nil n [])]
  show walkWith (os.startingIn dir) false _ [.normal n] dir = _
  exact walkWith_denied hv hs (.normal n) []

end Child

/-! ### Renaming -/

/-- What a rename that succeeds asked for. -/
theorem rename_eq_ok {os os' : Os} {s d : Path} (h : os.rename s d = .ok os') :
    ∃ src obj f, os.resolve false s = .ok (.entry src obj) ∧ os.resolve false d = .ok f ∧ s.fileName ≠ none ∧
      s.dot = false ∧ (obj.isLeft = true → s.slash = false ∧ d.slash = false) ∧
      (∀ dst obj', f = .entry dst obj' → obj'.isLeft = true → obj.isLeft = true) ∧
      ((src = f.loc ∧ os' = os) ∨
        (¬ src <+: f.loc ∧ ¬ f.loc <+: src ∧ os.mayChange src = true ∧ os.mayChange f.loc = true ∧
          os.mayMove src f.loc obj = true ∧ os' = os.moveTree src f.loc)) := by
  unfold rename at h
  split at h
  · cases h
  · cases h
  · cases h
  · rename_i src obj dst hs hd
    split_ifs at h with hname hslash hpre hmay
    obtain ⟨hname, hdot⟩ := not_or.mp hname
    have hdst : ¬ dst <+: src := by
      rintro ⟨k, rfl⟩
      have hsource : os.view (dst ++ k) = some obj := resolve_sound hs
      have hmissing : os.view dst = none := (resolve_sound hd).1
      rw [Os.view, DirTree.view_append_eq_none hmissing] at hsource
      cases hsource
    exact ⟨src, obj, .missing dst, hs, hd, hname, by simpa using hdot, by grind, by simp, Or.inr (by grind [Found.loc])⟩
  · rename_i src obj dst obj' hs hd
    split_ifs at h with hname hslash heq
    · have hsame : obj = obj' := by
        have hv : os.view src = some obj := resolve_sound hs
        have hv' : os.view dst = some obj' := resolve_sound hd
        rw [heq, hv'] at hv
        exact (Option.some.inj hv).symm
      exact ⟨src, obj, .entry dst obj', hs, hd, by grind, by grind, by grind, by grind, Or.inl ⟨heq, by grind⟩⟩
    · exact ⟨src, obj, .entry dst obj', hs, hd, by grind, by grind, by grind, by grind, Or.inr (by grind [Found.loc])⟩

/-- A rename onto an empty place does what it was asked. -/
theorem rename_missing {os : Os} {s d : Path} {src dst : Loc} {obj : Obj}
    (hs : os.resolve false s = .ok (.entry src obj)) (hd : os.resolve false d = .ok (.missing dst))
    (hname : s.fileName ≠ none) (hdot : s.dot = false) (hslash : obj.isLeft = true → s.slash = false ∧ d.slash = false)
    (hapart : ¬ src <+: dst) (hsrc : os.mayChange src = true) (hdst : os.mayChange dst = true)
    (hmove : os.mayMove src dst obj = true) : os.rename s d = .ok (os.moveTree src dst) := by
  have hleaf : ¬ ((s.slash || d.slash) = true ∧ obj.isLeft = true) := by
    rintro ⟨hor, hleft⟩
    obtain ⟨hs', hd'⟩ := hslash hleft
    simp [hs', hd'] at hor
  simp only [rename, hs, hd, hname, hdot, hleaf, hapart, hsrc, hdst, hmove, Bool.false_eq_true, or_self, ↓reduceIte,
    Bool.and_self]

/-- What was below the source is below the destination, and nothing else moved. -/
theorem view_moveTree {os : Os} {src dst : Loc} {obj : Obj} (hv : os.view src = some obj) (hsrc : ¬ src <+: dst)
    (hdst : ¬ dst <+: src) (hmay : os.mayChange dst = true) :
    SameProcess os (os.moveTree src dst) ∧ ∀ k, (os.moveTree src dst).view k =
      if dst <+: k then os.view (src ++ k.drop dst.length) else if src <+: k then none else os.view k := by
  have hne : src ≠ [] := fun h => hsrc (h ▸ List.nil_prefix)
  have hne' : dst ≠ [] := fun h => hdst (h ▸ List.nil_prefix)
  obtain ⟨t, hsub, htree, -⟩ := sub_eq_some hv
  have horphan := sameTree_orphan os dst
  have hmoved : SameTree os ((os.orphan dst).moveHandles src dst) :=
    ⟨⟨horphan.cwd, horphan.umask, horphan.privileged, horphan.dirSize⟩, horphan.view⟩
  have hwithout : Without (src <+: ·) os (((os.orphan dst).moveHandles src dst).put src none) :=
    hmoved.without (without_put hne ((hmoved.view src).trans hv))
  generalize hos : ((os.orphan dst).moveHandles src dst).put src none = os₁ at hwithout
  have heq : os.moveTree src dst = os₁.put dst (some t) := by rw [moveTree, hos, hsub]
  obtain ⟨mode, hparent, -⟩ := mayChange_dir hmay
  have hparent' : os₁.view dst.dropLast = some (.inr mode) := by
    rw [hwithout.kept _ fun hp => hsrc (hp.trans (List.dropLast_prefix dst)), hparent]
  rw [heq]
  refine ⟨⟨hwithout.cwd, hwithout.umask, hwithout.privileged, hwithout.dirSize⟩, fun k => ?_⟩
  show (os₁.tree.put dst (some t.1)).view k = _
  rw [DirTree.view_put (some t.1) os₁.ordered hne' ⟨mode, hparent'⟩]
  split
  · exact (DirTree.view_of_sub htree (k.drop dst.length)).symm
  · split
    · rename_i hk
      exact hwithout.taken k hk
    · rename_i hk
      exact hwithout.kept k hk

end Os

end Rsdb
