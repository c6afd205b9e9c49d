/-
# Facts about resolving a path

What a resolved path says of the tree (`Found.Sound`); the two stats, and when
they differ: a path that does not end at a link leads to the same object whether
a link at its end would be followed or not (`lookup_follow`); and where a path
leads on which there are no links, which its components alone say
(`resolve_plain`).
-/
import Rsdb.Os.Fs

namespace Rsdb

namespace Os

theorem step_stat (os : Os) (p : Path) :
    step (.stat p) os =
      (((os.lookup true p).map fun r => os.metadata r.1 r.2).mapError IoErrorKind.toError, os) := by
  cases h : os.lookup true p <;> simp [step, answer, h, Except.map, Except.mapError]

theorem step_lstat (os : Os) (p : Path) :
    step (.lstat p) os =
      (((os.lookup false p).map fun r => os.metadata r.1 r.2).mapError IoErrorKind.toError, os) := by
  cases h : os.lookup false p <;> simp [step, answer, h, Except.map, Except.mapError]

@[simp] theorem isDir_metadata (os : Os) (l : Loc) (obj : Obj) : (os.metadata l obj).isDir = obj.isDir := rfl

theorem size_of_kind (os : Os) (l : Loc) (obj : Obj) :
    (if obj.kind = .file then some (os.size l obj) else none) = obj.fileSize := by
  rcases obj with (_ | _ | _) | _ <;> rfl

theorem fileSize_metadata (os : Os) (l : Loc) (obj : Obj) :
    (if (os.metadata l obj).isFile then some (os.metadata l obj).size else none) = obj.fileSize := by
  rcases obj with (_ | _ | _) | _ <;> rfl

/-- Names are gone through from the working directory. -/
theorem resolve_ofNames (os : Os) (follow : Bool) {names : List Name} (hne : names ≠ []) :
    os.resolve follow (.ofNames names) = walk os follow maxLinks (names.map .normal) os.cwd := by
  simp [resolve, kernelComps, hne]

/-! ### What is found -/

/-- The place, whether something is there or not. -/
def Found.loc : Found → Loc
  | entry loc _ => loc
  | missing loc => loc

/-- What is found is there; what is missing is missing from a directory that can
be searched. -/
def Found.Sound (os : Os) : Found → Prop
  | entry loc obj => os.view loc = some obj
  | missing loc => os.view loc = none ∧
    ∃ dir name mode, loc = dir ++ [name] ∧ os.view dir = some (.inr mode) ∧ os.may mode ownerSearch = true

/-- One component from a directory that can be searched. -/
theorem walkWith_cons {os : Os} {follow : Bool} {jump : List Comp → Loc → Except IoErrorKind Found}
    {c : Comp} {cs : List Comp} {l : Loc} {f : Found} (h : walkWith os follow jump (c :: cs) l = .ok f) :
    ∃ mode, os.view l = some (.inr mode) ∧ os.may mode ownerSearch = true ∧
      ((c = .cur ∧ walkWith os follow jump cs l = .ok f) ∨
        (c = .parent ∧ walkWith os follow jump cs l.dropLast = .ok f) ∨
        ∃ name, c = .normal name ∧
          ((os.view (l ++ [name]) = none ∧ cs = [] ∧ f = .missing (l ++ [name])) ∨
            (∃ target, os.view (l ++ [name]) = some (.inl (.symlink target)) ∧
              ((cs = [] ∧ follow = false ∧ f = .entry (l ++ [name]) (.inl (.symlink target))) ∨
                jump (targetComps target ++ cs) (if target.abs then [] else l) = .ok f)) ∨
            (∃ obj, os.view (l ++ [name]) = some obj ∧ (∀ target, obj ≠ .inl (.symlink target)) ∧
              walkWith os follow jump cs (l ++ [name]) = .ok f))) := by
  unfold walkWith at h
  cases hv : os.view l with
  | none => simp [hv] at h
  | some obj =>
    cases obj with
    | inl a => simp [hv] at h
    | inr mode =>
      simp only [hv] at h
      by_cases hs : os.may mode ownerSearch = false
      · simp [hs] at h
      · refine ⟨mode, rfl, by simpa using hs, ?_⟩
        simp only [hs] at h
        cases c with
        | cur => exact Or.inl ⟨rfl, h⟩
        | parent => exact Or.inr (Or.inl ⟨rfl, h⟩)
        | normal name =>
          refine Or.inr (Or.inr ⟨name, rfl, ?_⟩)
          cases hn : os.view (l ++ [name]) with
          | none =>
            by_cases hcs : cs = []
            · exact Or.inl ⟨rfl, hcs, by simpa [hn, hcs] using h.symm⟩
            · simp [hn, hcs] at h
          | some obj =>
            right
            cases obj with
            | inr m => exact Or.inr ⟨_, rfl, by simp, by simpa [hn] using h⟩
            | inl leaf =>
              cases leaf with
              | file m content => exact Or.inr ⟨_, rfl, by simp, by simpa [hn] using h⟩
              | other m => exact Or.inr ⟨_, rfl, by simp, by simpa [hn] using h⟩
              | symlink target =>
                refine Or.inl ⟨target, rfl, ?_⟩
                by_cases hcs : cs = [] ∧ follow = false
                · exact Or.inl ⟨hcs.1, hcs.2, by simpa [hn, hcs] using h.symm⟩
                · exact Or.inr (by simpa [hn, hcs] using h)

theorem walkWith_nil {os : Os} {follow : Bool} {jump : List Comp → Loc → Except IoErrorKind Found}
    {l : Loc} {f : Found} (h : walkWith os follow jump [] l = .ok f) :
    ∃ obj, os.view l = some obj ∧ f = .entry l obj := by
  unfold walkWith at h
  cases hv : os.view l with
  | none => simp [hv] at h
  | some obj => exact ⟨obj, rfl, by simpa [hv] using h.symm⟩

theorem walkWith_sound {os : Os} {follow : Bool} {jump : List Comp → Loc → Except IoErrorKind Found}
    (hjump : ∀ cs l f, jump cs l = .ok f → f.Sound os) :
    ∀ (cs : List Comp) (l : Loc) (f : Found), walkWith os follow jump cs l = .ok f → f.Sound os
  | [], l, f, h => by
    obtain ⟨obj, hv, rfl⟩ := walkWith_nil h
    exact hv
  | c :: cs, l, f, h => by
    have ih : ∀ (l : Loc) (f : Found), walkWith os follow jump cs l = .ok f → f.Sound os :=
      walkWith_sound hjump cs
    obtain ⟨mode, hdir, hsearch, h | h | ⟨name, -, h | ⟨target, hlink, h | h⟩ | ⟨obj, -, -, h⟩⟩⟩ := walkWith_cons h
    · exact ih _ _ h.2
    · exact ih _ _ h.2
    · obtain ⟨hnone, -, rfl⟩ := h
      exact ⟨hnone, l, name, mode, rfl, hdir, hsearch⟩
    · obtain ⟨-, -, rfl⟩ := h
      exact hlink
    · exact hjump _ _ _ h
    · exact ih _ _ h

theorem walk_sound {os : Os} {follow : Bool} : ∀ {links : ℕ} {cs : List Comp} {l : Loc} {f : Found},
    walk os follow links cs l = .ok f → f.Sound os
  | 0, _, _, _, h => walkWith_sound (by simp) _ _ _ h
  | _ + 1, _, _, _, h => walkWith_sound (fun _ _ _ h => walk_sound h) _ _ _ h

theorem resolve_sound {os : Os} {follow : Bool} {p : Path} {f : Found} (h : os.resolve follow p = .ok f) :
    f.Sound os := by
  unfold resolve at h
  split at h
  · cases h
  · exact walk_sound h

/-- A lookup is the resolution of the path, of what is there. -/
theorem lookup_eq_ok {os : Os} {follow : Bool} {p : Path} {loc : Loc} {obj : Obj}
    (h : os.lookup follow p = .ok (loc, obj)) :
    os.resolve (follow || p.slash) p = .ok (.entry loc obj) ∧ os.view loc = some obj ∧
      (p.slash = true → obj.isLeft = false) := by
  unfold lookup at h
  cases hr : os.resolve (follow || p.slash) p with
  | error e => simp [hr] at h
  | ok f =>
    cases f with
    | missing l => simp [hr] at h
    | entry l o =>
      by_cases hdir : p.slash = true ∧ o.isLeft = true
      · simp only [hr] at h
        rw [if_pos hdir] at h
        cases h
      · simp only [hr, hdir, ↓reduceIte, Except.ok.injEq, Prod.mk.injEq] at h
        obtain ⟨rfl, rfl⟩ := h
        exact ⟨rfl, resolve_sound hr, fun hs => by simpa [hs] using hdir⟩

/-! ### Paths without links -/

end Os

/-- Where a component leads from a place, if there is no link. -/
def Comp.go (l : Loc) : Comp → Loc
  | cur => l
  | parent => l.dropLast
  | normal name => l ++ [name]

/-- Where components lead from a place. -/
def placeOf (l : Loc) (cs : List Comp) : Loc := cs.foldl Comp.go l

@[simp] theorem placeOf_nil (l : Loc) : placeOf l [] = l := rfl
@[simp] theorem placeOf_cons (l : Loc) (c : Comp) (cs : List Comp) :
    placeOf l (c :: cs) = placeOf (c.go l) cs := rfl
theorem placeOf_append (l : Loc) (cs ds : List Comp) : placeOf l (cs ++ ds) = placeOf (placeOf l cs) ds :=
  List.foldl_append

theorem placeOf_names (l : Loc) : ∀ names : List Name, placeOf l (names.map .normal) = l ++ names
  | [] => by simp
  | n :: names => by
    rw [List.map_cons, placeOf_cons, placeOf_names]
    simp [Comp.go]

namespace Os

/-- Where a relative or an absolute path starts. -/
def start (os : Os) (p : Path) : Loc := if p.abs then [] else os.cwd

/-- Where a path leads, if there is no link on it. -/
def place (os : Os) (p : Path) : Loc := placeOf (os.start p) p.comps

/-- No prefix of the components leads to a link. -/
def NoLinks (os : Os) (l : Loc) (cs : List Comp) : Prop :=
  ∀ ds, ds <+: cs → ∀ target, os.view (placeOf l ds) ≠ some (.inl (.symlink target))

theorem NoLinks.cons {os : Os} {l : Loc} {c : Comp} {cs : List Comp} (h : NoLinks os l (c :: cs)) :
    NoLinks os (c.go l) cs := fun ds hds => h (c :: ds) ((List.prefix_cons_inj c).mpr hds)

/-- A walk on which there are no links. -/
theorem walkWith_plain {os : Os} {follow : Bool} {jump : List Comp → Loc → Except IoErrorKind Found} :
    ∀ {cs : List Comp} {l : Loc} {f : Found}, NoLinks os l cs → walkWith os follow jump cs l = .ok f →
      f.loc = placeOf l cs ∧
        ∀ ds, ds <+: cs → ds ≠ cs → ∃ mode, os.view (placeOf l ds) = some (.inr mode) ∧
          os.may mode ownerSearch = true
  | [], l, f, _, h => by
    obtain ⟨obj, -, rfl⟩ := walkWith_nil h
    refine ⟨rfl, fun ds hds hne => absurd (List.prefix_nil.mp hds) hne⟩
  | c :: cs, l, f, hnl, h => by
    obtain ⟨mode, hdir, hsearch, hcase⟩ := walkWith_cons h
    have ih : walkWith os follow jump cs (c.go l) = .ok f → f.loc = placeOf (c.go l) cs ∧
        ∀ ds, ds <+: cs → ds ≠ cs → ∃ mode, os.view (placeOf (c.go l) ds) = some (.inr mode) ∧
          os.may mode ownerSearch = true := walkWith_plain hnl.cons
    have hcases : f.loc = placeOf (c.go l) cs ∧
        ∀ ds, ds <+: cs → ds ≠ cs → ∃ mode, os.view (placeOf (c.go l) ds) = some (.inr mode) ∧
          os.may mode ownerSearch = true := by
      rcases hcase with ⟨rfl, hw⟩ | ⟨rfl, hw⟩ | ⟨name, rfl, ⟨-, rfl, rfl⟩ | ⟨target, hlink, -⟩ | ⟨obj, -, -, hw⟩⟩
      · exact ih hw
      · exact ih hw
      · exact ⟨rfl, fun ds hds hne => absurd (List.prefix_nil.mp hds) hne⟩
      · exact absurd hlink (hnl.cons [] List.nil_prefix target)
      · exact ih hw
    refine ⟨hcases.1, fun ds hds hne => ?_⟩
    cases ds with
    | nil => exact ⟨mode, hdir, hsearch⟩
    | cons d ds =>
      obtain ⟨rfl, hpre⟩ := List.cons_prefix_cons.mp hds
      exact hcases.2 ds hpre fun heq => hne (heq ▸ rfl)

theorem walk_plain {os : Os} {follow : Bool} {links : ℕ} {cs : List Comp} {l : Loc} {f : Found}
    (hnl : NoLinks os l cs) (h : walk os follow links cs l = .ok f) :
    f.loc = placeOf l cs ∧ ∀ ds, ds <+: cs → ds ≠ cs → ∃ mode, os.view (placeOf l ds) = some (.inr mode) ∧
      os.may mode ownerSearch = true := by
  cases links with
  | zero => exact walkWith_plain hnl h
  | succ links => exact walkWith_plain hnl h

theorem placeOf_kernelComps (l : Loc) (p : Path) : placeOf l (kernelComps p) = placeOf l p.comps := by
  unfold kernelComps
  split
  · rw [placeOf_append]; rfl
  · rw [List.append_nil]

theorem NoLinks.kernelComps {os : Os} {l : Loc} {p : Path} (h : NoLinks os l p.comps) :
    NoLinks os l (kernelComps p) := by
  intro ds hds target
  unfold Os.kernelComps at hds
  split at hds
  · rcases List.prefix_concat_iff.mp hds with rfl | hds
    · rw [placeOf_append]
      exact h _ List.prefix_rfl target
    · exact h ds hds target
  · exact h ds (by simpa using hds) target

/-- A path without links leads where its components say, through directories. -/
theorem resolve_plain {os : Os} {follow : Bool} {p : Path} {f : Found}
    (hnl : NoLinks os (os.start p) p.comps) (h : os.resolve follow p = .ok f) :
    f.loc = os.place p ∧ ∀ ds, ds <+: p.comps → ds ≠ p.comps → ∃ mode,
      os.view (placeOf (os.start p) ds) = some (.inr mode) ∧ os.may mode ownerSearch = true := by
  unfold resolve at h
  split at h
  · cases h
  · obtain ⟨hloc, hdirs⟩ := walk_plain hnl.kernelComps h
    rw [placeOf_kernelComps] at hloc
    refine ⟨hloc, fun ds hds hne => hdirs ds (hds.trans (List.prefix_append _ _)) fun heq => ?_⟩
    have hlen := hds.length_le
    rw [heq, Os.kernelComps, List.length_append] at hlen
    have hnil : (if p.dot then [Comp.cur] else []) = [] := List.eq_nil_of_length_eq_zero (by omega)
    rw [Os.kernelComps, hnil, List.append_nil] at heq
    exact hne heq

/-! ### Following a link at the end -/

/-- One pass that does not end at a link does the same if it would follow it. -/
theorem walkWith_follow (os : Os) {jump jump' : List Comp → Loc → Except IoErrorKind Found}
    (hjump : ∀ cs l, (∀ loc t, jump cs l ≠ .ok (.entry loc (.inl (.symlink t)))) → jump' cs l = jump cs l) :
    ∀ (cs : List Comp) (l : Loc),
      (∀ loc t, walkWith os false jump cs l ≠ .ok (.entry loc (.inl (.symlink t)))) →
        walkWith os true jump' cs l = walkWith os false jump cs l
  | [], l, _ => rfl
  | c :: cs, l, h => by
    have ih := walkWith_follow os hjump cs
    unfold walkWith at h ⊢
    cases hv : os.view l with
    | none => rfl
    | some obj =>
      cases obj with
      | inl a => rfl
      | inr mode =>
        simp only [hv] at h ⊢
        by_cases hs : os.may mode ownerSearch = false
        · simp [hs]
        · simp only [hs] at h ⊢
          cases c with
          | cur => exact ih _ h
          | parent => exact ih _ h
          | normal name =>
            simp only at h ⊢
            cases hn : os.view (l ++ [name]) with
            | none => rfl
            | some obj =>
              cases obj with
              | inr m => simp only [hn] at h ⊢; exact ih _ h
              | inl leaf =>
                cases leaf with
                | symlink target =>
                  simp only [hn] at h ⊢
                  by_cases hcs : cs = []
                  · simp [hcs] at h
                  · simp only [hcs, false_and] at h ⊢
                    exact hjump _ _ h
                | file m content => simp only [hn] at h ⊢; exact ih _ h
                | other m => simp only [hn] at h ⊢; exact ih _ h

theorem walk_follow (os : Os) : ∀ (links : ℕ) (cs : List Comp) (l : Loc),
    (∀ loc t, walk os false links cs l ≠ .ok (.entry loc (.inl (.symlink t)))) →
      walk os true links cs l = walk os false links cs l
  | 0 => walkWith_follow os fun _ _ _ => rfl
  | links + 1 => walkWith_follow os fun cs l h => walk_follow os links cs l h

/-- A path that names no link is looked up the same way by both stats. -/
theorem lookup_follow {os : Os} {p : Path}
    (h : ∀ loc t, os.lookup false p ≠ .ok (loc, .inl (.symlink t))) : os.lookup true p = os.lookup false p := by
  cases hslash : p.slash with
  | true => simp [lookup, hslash]
  | false =>
    have hres : os.resolve true p = os.resolve false p := by
      unfold resolve
      split
      · rfl
      · refine walk_follow os _ _ _ fun loc t hw => h loc t ?_
        simp [lookup, resolve, *]
    simp [lookup, hslash, hres]

/-- Something is there, whether a link at the end is followed or not. -/
theorem walkWith_entry {os : Os} {jump jump' : List Comp → Loc → Except IoErrorKind Found}
    (hjump : ∀ cs l loc obj, jump cs l = .ok (.entry loc obj) → ∃ loc obj, jump' cs l = .ok (.entry loc obj)) :
    ∀ (cs : List Comp) (l loc : Loc) (obj : Obj), walkWith os true jump cs l = .ok (.entry loc obj) →
      ∃ loc obj, walkWith os false jump' cs l = .ok (.entry loc obj)
  | [], l, loc, obj, h => ⟨loc, obj, h⟩
  | c :: cs, l, loc, obj, h => by
    have ih : ∀ (l loc : Loc) (obj : Obj), walkWith os true jump cs l = .ok (.entry loc obj) →
        ∃ loc obj, walkWith os false jump' cs l = .ok (.entry loc obj) := walkWith_entry hjump cs
    obtain ⟨mode, hdir, hsearch, hcase⟩ := walkWith_cons h
    unfold walkWith
    simp only [hdir, hsearch, Bool.true_eq_false, ↓reduceIte]
    rcases hcase with ⟨rfl, hw⟩ | ⟨rfl, hw⟩ | ⟨name, rfl, ⟨-, -, hf⟩ | ⟨target, hlink, ⟨-, hfollow, -⟩ | hw⟩ | ⟨o, hv, hne, hw⟩⟩
    · exact ih _ _ _ hw
    · exact ih _ _ _ hw
    · cases hf
    · cases hfollow
    · simp only [hlink]
      split
      · exact ⟨_, _, rfl⟩
      · exact hjump _ _ _ _ hw
    · simp only [hv]
      match o, hne with
      | .inl (.symlink target), hne => exact absurd rfl (hne target)
      | .inl (.file _ _), _ | .inl (.other _), _ | .inr _, _ => exact ih _ _ _ hw

theorem walk_entry {os : Os} : ∀ {links : ℕ} {cs : List Comp} {l loc : Loc} {obj : Obj},
    walk os true links cs l = .ok (.entry loc obj) → ∃ loc obj, walk os false links cs l = .ok (.entry loc obj)
  | 0, _, _, _, _, h => walkWith_entry (fun _ _ _ _ h => by cases h) _ _ _ _ h
  | _ + 1, _, _, _, _, h => walkWith_entry (fun _ _ _ _ h => walk_entry h) _ _ _ _ h

/-- Where following the path leads to something, there is something at its end. -/
theorem resolve_entry {os : Os} {p : Path} {loc : Loc} {obj : Obj} (h : os.resolve true p = .ok (.entry loc obj)) :
    ∃ loc obj, os.resolve false p = .ok (.entry loc obj) := by
  unfold resolve at h ⊢
  split
  · rename_i hempty
    rw [if_pos hempty] at h
    cases h
  · rename_i hempty
    rw [if_neg hempty] at h
    exact walk_entry h

/-- Where following the path leads to something, there is something at it. -/
theorem lookup_entry {os : Os} {p : Path} {loc : Loc} {obj : Obj} (h : os.lookup true p = .ok (loc, obj)) :
    ∃ loc obj, os.lookup false p = .ok (loc, obj) := by
  cases hslash : p.slash with
  | true =>
    have hsame : os.lookup false p = os.lookup true p := by rw [lookup, lookup, hslash, Bool.or_true, Bool.or_true]
    exact ⟨loc, obj, hsame.trans h⟩
  | false =>
    have hentry : os.resolve true p = .ok (.entry loc obj) := (lookup_eq_ok h).1
    obtain ⟨loc', obj, hres⟩ := resolve_entry hentry
    refine ⟨loc', obj, ?_⟩
    simp [lookup, hslash, hres]

/-- A slash at the end asks for a directory. -/
theorem slash_of_lookup_leaf {os : Os} {follow : Bool} {p : Path} {loc : Loc} {leaf : Leaf}
    (h : os.lookup follow p = .ok (loc, .inl leaf)) : p.slash = false := by
  unfold lookup at h
  split at h
  · cases h
  · cases h
  · split at h
    · cases h
    · rename_i hdir
      cases h
      simpa using hdir

/-! ### Regular files -/

/-- The content of a regular file; a link at the end is not followed. -/
def fileContent (os : Os) (p : Path) : Option Bytes :=
  match os.lookup false p with
  | .ok (_, .inl (.file _ content)) => some content
  | _ => none

theorem fileContent_eq_some {os : Os} {p : Path} {content : Bytes} :
    os.fileContent p = some content ↔ ∃ l mode, os.lookup false p = .ok (l, .inl (.file mode content)) := by
  unfold fileContent
  constructor
  · intro h
    split at h
    · rename_i l mode content' hlookup
      obtain rfl := Option.some.inj h
      exact ⟨l, mode, hlookup⟩
    · cases h
  · rintro ⟨l, mode, hlookup⟩
    rw [hlookup]

/-- The file itself is what following the path leads to. -/
theorem lookup_of_file {os : Os} {p : Path} {l : Loc} {mode : ℕ} {content : Bytes}
    (h : os.lookup false p = .ok (l, .inl (.file mode content))) :
    os.lookup true p = .ok (l, .inl (.file mode content)) := by
  rw [lookup_follow, h]
  intro loc target heq
  rw [h] at heq
  cases heq

/-- A new handle on a file reads its content. -/
theorem addHandle_content {os : Os} {l : Loc} {mode : ℕ} {content : Bytes}
    (hview : os.view l = some (.inl (.file mode content))) :
    (os.addHandle ⟨.inl l, 0⟩).2.handles[os.handles.length]? = some ⟨.inl l, 0⟩ ∧
      (os.addHandle ⟨.inl l, 0⟩).2.contentOf ⟨.inl l, 0⟩ = some content := by
  have hview' : (os.addHandle ⟨.inl l, 0⟩).2.view l = some (.inl (.file mode content)) := hview
  constructor
  · simp [addHandle]
  · simp only [contentOf, hview']

end Os

end Rsdb
