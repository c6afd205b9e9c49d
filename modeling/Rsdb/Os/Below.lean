/-
# Paths below a directory

A path that leads to a directory, perhaps through links, and then names. As long
as the directories and the links on the way stay as they are (`Keeps`), it leads
to the same directory (`Leads.keeps`), and a path with names after it to a place
below, if the directories there can be searched (`resolve_below`), or nowhere
(`resolve_below_denied`).
-/
import Rsdb.Os.Effects

namespace Rsdb

namespace Os

/-! ### One component -/

section Steps

variable {os : Os} {follow : Bool} {jump : List Comp → Loc → Except IoErrorKind Found} {l : Loc} {mode : ℕ}
  (hv : os.view l = some (.inr mode)) (hs : os.may mode ownerSearch = true)

include hv hs

theorem walkWith_cur (cs : List Comp) : walkWith os follow jump (.cur :: cs) l = walkWith os follow jump cs l := by
  rw [walkWith]
  simp [hv, hs]

theorem walkWith_parent (cs : List Comp) :
    walkWith os follow jump (.parent :: cs) l = walkWith os follow jump cs l.dropLast := by
  rw [walkWith]
  simp [hv, hs]

theorem walkWith_link {name : Name} {target : Path} (hlink : os.view (l ++ [name]) = some (.inl (.symlink target)))
    {cs : List Comp} (hcs : cs ≠ [] ∨ follow = true) :
    walkWith os follow jump (.normal name :: cs) l =
      jump (targetComps target ++ cs) (if target.abs then [] else l) := by
  have hcond : ¬ (cs = [] ∧ follow = false) := by
    rintro ⟨rfl, rfl⟩
    simp at hcs
  rw [walkWith]
  simp only [hv, hs, hlink]
  rw [if_neg (by simp), if_neg hcond]

theorem walkWith_next {name : Name} {obj : Obj} (hobj : os.view (l ++ [name]) = some obj)
    (hlink : ∀ target, obj ≠ .inl (.symlink target)) (cs : List Comp) :
    walkWith os follow jump (.normal name :: cs) l = walkWith os follow jump cs (l ++ [name]) := by
  rw [walkWith]
  simp only [hv, hs, hobj]
  rcases obj with (_ | target | _) | _
  · rfl
  · exact absurd rfl (hlink target)
  · rfl
  · rfl

theorem walkWith_missing {name : Name} (hnone : os.view (l ++ [name]) = none) :
    walkWith os follow jump [.normal name] l = .ok (.missing (l ++ [name])) := by
  unfold walkWith
  simp [hv, hs, hnone]

end Steps

theorem walkWith_denied {os : Os} {follow : Bool} {jump : List Comp → Loc → Except IoErrorKind Found} {l : Loc}
    {mode : ℕ} (hv : os.view l = some (.inr mode)) (hs : os.may mode ownerSearch = false) (c : Comp)
    (cs : List Comp) : walkWith os follow jump (c :: cs) l = .error .permissionDenied := by
  unfold walkWith
  simp [hv, hs]

/-! ### Names from a directory on -/

/-- The directories above `l ++ names`, from `l` on, are there. -/
def DirsAbove (os : Os) (l : Loc) (names : List Name) : Prop :=
  ∀ pre, pre <+: names → pre ≠ names → ∃ mode, os.view (l ++ pre) = some (.inr mode)

/-- And can be searched. -/
def Searchable (os : Os) (l : Loc) (names : List Name) : Prop :=
  ∀ pre, pre <+: names → pre ≠ names → ∀ mode, os.view (l ++ pre) = some (.inr mode) →
    os.may mode ownerSearch = true

/-- Nothing, or what is there. -/
def foundAt (os : Os) (l : Loc) : Found :=
  match os.view l with
  | none => .missing l
  | some obj => .entry l obj

theorem DirsAbove.tail {os : Os} {l : Loc} {n : Name} {names : List Name} (h : DirsAbove os l (n :: names)) :
    DirsAbove os (l ++ [n]) names := by
  intro pre hpre hne
  rw [List.append_assoc]
  exact h (n :: pre) ((List.prefix_cons_inj n).mpr hpre) fun heq => hne (List.cons.inj heq).2

theorem Searchable.tail {os : Os} {l : Loc} {n : Name} {names : List Name} (h : Searchable os l (n :: names)) :
    Searchable os (l ++ [n]) names := by
  intro pre hpre hne mode hmode
  rw [List.append_assoc] at hmode
  exact h (n :: pre) ((List.prefix_cons_inj n).mpr hpre) (fun heq => hne (List.cons.inj heq).2) mode hmode

theorem walkWith_names {os : Os} {follow : Bool} {jump : List Comp → Loc → Except IoErrorKind Found} :
    ∀ {names : List Name} {l : Loc}, names ≠ [] → DirsAbove os l names → Searchable os l names →
      (∀ target, os.view (l ++ names) ≠ some (.inl (.symlink target))) →
      walkWith os follow jump (names.map .normal) l = .ok (os.foundAt (l ++ names))
  | [n], l, _, hdirs, hsearch, hlink => by
    obtain ⟨mode, hv⟩ := hdirs [] List.nil_prefix (by simp)
    have hs := hsearch [] List.nil_prefix (by simp) mode hv
    rw [List.append_nil] at hv
    rw [List.map_cons, List.map_nil]
    cases hobj : os.view (l ++ [n]) with
    | none => rw [walkWith_missing hv hs hobj, foundAt, hobj]
    | some obj =>
      rw [walkWith_next hv hs hobj (fun target heq => hlink target (heq ▸ hobj)), walkWith, foundAt, hobj]
  | n :: m :: names, l, _, hdirs, hsearch, hlink => by
    obtain ⟨mode, hv⟩ := hdirs [] List.nil_prefix (by simp)
    have hs := hsearch [] List.nil_prefix (by simp) mode hv
    rw [List.append_nil] at hv
    obtain ⟨mode', hv'⟩ := hdirs [n] ⟨m :: names, rfl⟩ (by simp)
    rw [List.map_cons, walkWith_next hv hs hv' (by simp),
      walkWith_names (List.cons_ne_nil m names) hdirs.tail hsearch.tail
        (by simpa only [List.append_assoc, List.singleton_append] using hlink)]
    simp only [List.append_assoc, List.singleton_append]

theorem walkWith_names_denied {os : Os} {follow : Bool} {jump : List Comp → Loc → Except IoErrorKind Found} :
    ∀ {names : List Name} {l : Loc}, DirsAbove os l names → ¬ Searchable os l names →
      walkWith os follow jump (names.map .normal) l = .error .permissionDenied
  | [], l, _, hsearch => by
    exact absurd (fun pre hpre hne => absurd (List.prefix_nil.mp hpre) hne) hsearch
  | n :: names, l, hdirs, hsearch => by
    obtain ⟨mode, hv⟩ := hdirs [] List.nil_prefix (by simp)
    rw [List.append_nil] at hv
    rw [List.map_cons]
    cases hs : os.may mode ownerSearch with
    | false => exact walkWith_denied hv hs _ _
    | true =>
      have hrest : ¬ Searchable os (l ++ [n]) names := by
        intro h
        refine hsearch fun pre hpre hne m hm => ?_
        cases pre with
        | nil =>
          rw [List.append_nil, hv] at hm
          cases hm
          exact hs
        | cons k pre =>
          obtain ⟨rfl, htail⟩ := List.cons_prefix_cons.mp hpre
          refine h pre htail (fun heq => hne (heq ▸ rfl)) m ?_
          rwa [List.append_assoc]
      have hne : names ≠ [] := by
        rintro rfl
        exact hrest fun pre hpre hne => absurd (List.prefix_nil.mp hpre) hne
      obtain ⟨mode', hv'⟩ := hdirs [n] ⟨names, rfl⟩ (by simpa using hne.symm)
      rw [walkWith_next hv hs hv' (by simp)]
      exact walkWith_names_denied hdirs.tail hrest

/-! ### A path to a directory -/

/-- The path leads to a directory, through links too. -/
def Leads (os : Os) (base : Path) (dir : Loc) : Prop :=
  ∃ mode, walk os true maxLinks base.comps (os.start base) = .ok (.entry dir (.inr mode))

/-- What follows a path to a directory goes on from there. -/
theorem walkWith_append {os : Os} {follow : Bool} {jump jump' : List Comp → Loc → Except IoErrorKind Found}
    {ds : List Comp} (hds : ds ≠ []) {dir : Loc} {mode : ℕ} {result : Except IoErrorKind Found}
    (hresult : walkWith os follow jump' ds dir = result)
    (hjump : ∀ cs l, jump cs l = .ok (.entry dir (.inr mode)) → jump' (cs ++ ds) l = result) :
    ∀ (cs : List Comp) (l : Loc), walkWith os true jump cs l = .ok (.entry dir (.inr mode)) →
      walkWith os follow jump' (cs ++ ds) l = result
  | [], l, h => by
    obtain ⟨obj, -, hentry⟩ := walkWith_nil h
    cases hentry
    exact hresult
  | c :: cs, l, h => by
    have ih : ∀ l, walkWith os true jump cs l = .ok (.entry dir (.inr mode)) →
        walkWith os follow jump' (cs ++ ds) l = result := walkWith_append hds hresult hjump cs
    obtain ⟨m, hv, hs, hcase⟩ := walkWith_cons h
    rcases hcase with ⟨rfl, hw⟩ | ⟨rfl, hw⟩ | ⟨name, rfl, hcase⟩
    · rw [List.cons_append, walkWith_cur hv hs]
      exact ih _ hw
    · rw [List.cons_append, walkWith_parent hv hs]
      exact ih _ hw
    · rcases hcase with ⟨-, -, hmiss⟩ | ⟨target, hlink, ⟨-, hfalse, -⟩ | hw⟩ | ⟨obj, hobj, hno, hw⟩
      · cases hmiss
      · cases hfalse
      · rw [List.cons_append, walkWith_link hv hs hlink (Or.inl (by simp [hds])), ← List.append_assoc]
        exact hjump _ _ hw
      · rw [List.cons_append, walkWith_next hv hs hobj hno]
        exact ih _ hw

theorem walk_append {os : Os} {follow : Bool} {ds : List Comp} (hds : ds ≠ []) {dir : Loc} {mode : ℕ}
    {result : Except IoErrorKind Found} (hresult : ∀ jump, walkWith os follow jump ds dir = result) :
    ∀ {links : ℕ} {cs : List Comp} {l : Loc}, walk os true links cs l = .ok (.entry dir (.inr mode)) →
      walk os follow links (cs ++ ds) l = result
  | 0, cs, l, h => walkWith_append hds (hresult _) (by simp) cs l h
  | _ + 1, cs, l, h => walkWith_append hds (hresult _) (fun _ _ h => walk_append hds hresult h) cs l h

/-- A `.` at the end of a path to a directory can be left out. -/
theorem walkWith_of_cur {os : Os} {jump : List Comp → Loc → Except IoErrorKind Found} {f : Found}
    (hjump : ∀ cs l, jump (cs ++ [.cur]) l = .ok f → jump cs l = .ok f) :
    ∀ (cs : List Comp) (l : Loc), walkWith os true jump (cs ++ [.cur]) l = .ok f → walkWith os true jump cs l = .ok f
  | [], l, h => by
    obtain ⟨m, -, -, ⟨-, hw⟩ | ⟨hc, -⟩ | ⟨name, hc, -⟩⟩ := walkWith_cons h
    · exact hw
    · cases hc
    · cases hc
  | c :: cs, l, h => by
    have ih : ∀ l, walkWith os true jump (cs ++ [.cur]) l = .ok f → walkWith os true jump cs l = .ok f :=
      walkWith_of_cur hjump cs
    obtain ⟨m, hv, hs, hcase⟩ := walkWith_cons h
    rcases hcase with ⟨rfl, hw⟩ | ⟨rfl, hw⟩ | ⟨name, rfl, hcase⟩
    · rw [walkWith_cur hv hs]
      exact ih _ hw
    · rw [walkWith_parent hv hs]
      exact ih _ hw
    · rcases hcase with ⟨-, hnil, -⟩ | ⟨target, hlink, ⟨hnil, -⟩ | hw⟩ | ⟨obj, hobj, hno, hw⟩
      · simp at hnil
      · simp at hnil
      · rw [walkWith_link hv hs hlink (Or.inr rfl)]
        refine hjump _ _ ?_
        rwa [List.append_assoc]
      · rw [walkWith_next hv hs hobj hno]
        exact ih _ hw

theorem walk_of_cur {os : Os} {f : Found} : ∀ {links : ℕ} {cs : List Comp} {l : Loc},
    walk os true links (cs ++ [.cur]) l = .ok f → walk os true links cs l = .ok f
  | 0, _, _, h => walkWith_of_cur (by simp) _ _ h
  | links + 1, _, _, h =>
    walkWith_of_cur (fun cs l (hw : walk os true links (cs ++ [.cur]) l = .ok f) => walk_of_cur hw) _ _ h

theorem leads_of_lookup {os : Os} {base : Path} {dir : Loc} {mode : ℕ}
    (h : os.lookup true base = .ok (dir, .inr mode)) : Leads os base dir := by
  obtain ⟨hr, -, -⟩ := lookup_eq_ok h
  rw [Bool.true_or] at hr
  refine ⟨mode, ?_⟩
  unfold resolve at hr
  split at hr
  · cases hr
  · unfold kernelComps at hr
    split at hr
    · exact walk_of_cur hr
    · rwa [List.append_nil] at hr

/-! ### Staying the same -/

/-- The directories and the links are as they were. -/
structure Keeps (os os' : Os) : Prop extends SameProcess os os' where
  dir : ∀ l mode, os.view l = some (.inr mode) → os'.view l = some (.inr mode)
  link : ∀ l target, os.view l = some (.inl (.symlink target)) → os'.view l = some (.inl (.symlink target))

theorem walkWith_keeps {os os' : Os} (hk : Keeps os os') {jump jump' : List Comp → Loc → Except IoErrorKind Found}
    {dir : Loc} {mode : ℕ}
    (hjump : ∀ cs l, jump cs l = .ok (.entry dir (.inr mode)) → jump' cs l = .ok (.entry dir (.inr mode))) :
    ∀ (cs : List Comp) (l : Loc), walkWith os true jump cs l = .ok (.entry dir (.inr mode)) →
      walkWith os' true jump' cs l = .ok (.entry dir (.inr mode))
  | [], l, h => by
    obtain ⟨obj, hv, hentry⟩ := walkWith_nil h
    cases hentry
    rw [walkWith, hk.dir dir mode hv]
  | c :: cs, l, h => by
    have ih : ∀ l, walkWith os true jump cs l = .ok (.entry dir (.inr mode)) →
        walkWith os' true jump' cs l = .ok (.entry dir (.inr mode)) := walkWith_keeps hk hjump cs
    obtain ⟨m, hdir, hsearch, hcase⟩ := walkWith_cons h
    have hv := hk.dir l m hdir
    have hs : os'.may m ownerSearch = true := (hk.toSameProcess.may m _).trans hsearch
    rcases hcase with ⟨rfl, hw⟩ | ⟨rfl, hw⟩ | ⟨name, rfl, hcase⟩
    · rw [walkWith_cur hv hs]
      exact ih _ hw
    · rw [walkWith_parent hv hs]
      exact ih _ hw
    · rcases hcase with ⟨-, -, hmiss⟩ | ⟨target, hlink, ⟨-, hfalse, -⟩ | hw⟩ | ⟨obj, hobj, -, hw⟩
      · cases hmiss
      · cases hfalse
      · rw [walkWith_link hv hs (hk.link _ _ hlink) (Or.inr rfl)]
        exact hjump _ _ hw
      · have hdir' : ∃ m, os.view (l ++ [name]) = some (.inr m) := by
          cases cs with
          | nil =>
            obtain ⟨obj', hv', hentry⟩ := walkWith_nil hw
            cases hentry
            exact ⟨mode, hv'⟩
          | cons c cs =>
            obtain ⟨m', hm', -⟩ := walkWith_cons hw
            exact ⟨m', hm'⟩
        obtain ⟨m', hm'⟩ := hdir'
        rw [walkWith_next hv hs (hk.dir _ _ hm') (by simp)]
        exact ih _ hw

theorem walk_keeps {os os' : Os} (hk : Keeps os os') {dir : Loc} {mode : ℕ} :
    ∀ {links : ℕ} {cs : List Comp} {l : Loc}, walk os true links cs l = .ok (.entry dir (.inr mode)) →
      walk os' true links cs l = .ok (.entry dir (.inr mode))
  | 0, _, _, h => walkWith_keeps hk (by simp) _ _ h
  | _ + 1, _, _, h => walkWith_keeps hk (fun _ _ h => walk_keeps hk h) _ _ h

theorem Leads.keeps {os os' : Os} {base : Path} {dir : Loc} (h : Leads os base dir) (hk : Keeps os os') :
    Leads os' base dir := by
  obtain ⟨mode, hw⟩ := h
  exact ⟨mode, hk.toSameProcess.start base ▸ walk_keeps hk hw⟩

theorem Leads.dir {os : Os} {base : Path} {dir : Loc} (h : Leads os base dir) :
    ∃ mode, os.view dir = some (.inr mode) := by
  obtain ⟨mode, hw⟩ := h
  exact ⟨mode, walk_sound hw⟩

/-! ### The calls on it -/

/-- A path, and names after it. -/
def below (base : Path) (names : List Name) : Path := names.foldl Path.push base

@[simp] theorem below_abs (base : Path) (names : List Name) : (below base names).abs = base.abs := (Path.comps_push names base).1

@[simp] theorem below_comps (base : Path) (names : List Name) :
    (below base names).comps = base.comps ++ names.map .normal := (Path.comps_push names base).2

theorem below_slash (base : Path) {names : List Name} (hne : names ≠ []) : (below base names).slash = false :=
  (Path.foldl_push_ends base hne).1

theorem below_dot (base : Path) {names : List Name} (hne : names ≠ []) : (below base names).dot = false :=
  (Path.foldl_push_ends base hne).2.1

theorem below_isEmpty (base : Path) {names : List Name} (hne : names ≠ []) : (below base names).isEmpty = false :=
  (Path.foldl_push_ends base hne).2.2

theorem kernelComps_below (base : Path) {names : List Name} (hne : names ≠ []) :
    kernelComps (below base names) = base.comps ++ names.map .normal := by
  simp [kernelComps, below_dot base hne]

theorem resolve_below_eq {os : Os} {base : Path} {dir : Loc} (h : Leads os base dir) {names : List Name}
    (hne : names ≠ []) {follow : Bool} {result : Except IoErrorKind Found}
    (hresult : ∀ jump, walkWith os follow jump (names.map .normal) dir = result) :
    os.resolve follow (below base names) = result := by
  obtain ⟨mode, hw⟩ := h
  have hmap : names.map Comp.normal ≠ [] := by simpa using hne
  rw [resolve, below_isEmpty base hne, kernelComps_below base hne, if_neg (by simp), below_abs]
  exact walk_append hmap hresult hw

/-- A path below the directory leads to its place. -/
theorem resolve_below {os : Os} {base : Path} {dir : Loc} (h : Leads os base dir) {names : List Name}
    (hne : names ≠ []) (hdirs : DirsAbove os dir names) (hsearch : Searchable os dir names)
    (hlink : ∀ target, os.view (dir ++ names) ≠ some (.inl (.symlink target))) (follow : Bool) :
    os.resolve follow (below base names) = .ok (os.foundAt (dir ++ names)) :=
  resolve_below_eq h hne fun _ => walkWith_names hne hdirs hsearch hlink

theorem resolve_below_denied {os : Os} {base : Path} {dir : Loc} (h : Leads os base dir) {names : List Name}
    (hdirs : DirsAbove os dir names) (hsearch : ¬ Searchable os dir names) (follow : Bool) :
    os.resolve follow (below base names) = .error .permissionDenied := by
  refine resolve_below_eq h ?_ fun _ => walkWith_names_denied hdirs hsearch
  rintro rfl
  exact hsearch fun pre hpre hne => absurd (List.prefix_nil.mp hpre) hne

end Os

end Rsdb
