/-
# Changes that stay in one part of the tree

`Confined area n os os'` says that `os'` has come from `os` by changes in `area` only,
that there is no link in the area, and that every handle from the `n`-th on is to a
file in it. Directories and leaves that are there stay directories and leaves, but
their permission bits may be others.

What leads to a directory in `os` leads to the same one in `os'`, or is barred for want
of permission (`Confined.leads`); so a path with names after it never gets out of the
area, links or not (`Confined.loc_below`), and neither do the calls that go through
such paths (`confined_mkdir`, `confined_openWrite`, `confined_write`,
`confined_chmod`).
-/
import Rsdb.Os.Below

namespace Rsdb

namespace Os

/-- The places at some names of a directory, and below them. -/
def Area (dir : Loc) (names : List Name) (k : Loc) : Prop := ∃ n ∈ names, dir ++ [n] <+: k

theorem area_below {dir : Loc} {names : List Name} {n : Name} (hn : n ∈ names) (k : Loc) :
    Area dir names (dir ++ n :: k) :=
  ⟨n, hn, k, by rw [List.append_assoc]; rfl⟩

theorem Area.append {dir : Loc} {names : List Name} {k : Loc} (h : Area dir names k) (k' : Loc) :
    Area dir names (k ++ k') := by
  obtain ⟨n, hn, hpre⟩ := h
  exact ⟨n, hn, hpre.trans (List.prefix_append k k')⟩

/-- Only the area has changed, and it has no link, nor had it one before. -/
structure Confined (area : Loc → Prop) (n : ℕ) (os os' : Os) : Prop extends SameProcess os os' where
  outside : ∀ k, ¬ area k → os'.view k = os.view k
  before : ∀ k target, area k → os.view k ≠ some (.inl (.symlink target))
  linkFree : ∀ k target, area k → os'.view k ≠ some (.inl (.symlink target))
  dirs : ∀ k mode, os.view k = some (.inr mode) → ∃ mode', os'.view k = some (.inr mode')
  handles : n ≤ os'.handles.length
  mine : ∀ fd h l, n ≤ fd → os'.handles[fd]? = some h → h.file = .inl l → area l

theorem Confined.refl {area : Loc → Prop} (os : Os)
    (hfree : ∀ k target, area k → os.view k ≠ some (.inl (.symlink target))) :
    Confined area os.handles.length os os where
  toSameProcess := .refl os
  outside _ _ := rfl
  before := hfree
  linkFree := hfree
  dirs _ mode h := ⟨mode, h⟩
  handles := le_rfl
  mine fd h l hfd hget _ := by
    obtain ⟨hlt, -⟩ := List.getElem?_eq_some_iff.mp hget
    omega

/-! ### Where paths lead -/

/-- Names below a directory, without a link on the way: the walk ends at their place. -/
theorem walkWith_names_loc {os : Os} {follow : Bool} {jump : List Comp → Loc → Except IoErrorKind Found} {f : Found} :
    ∀ {names : List Name} {l : Loc}, names ≠ [] →
      (∀ pre target, pre ≠ [] → pre <+: names → os.view (l ++ pre) ≠ some (.inl (.symlink target))) →
      walkWith os follow jump (names.map .normal) l = .ok f → f.loc = l ++ names
  | n :: names, l, _, hfree, h => by
    obtain ⟨-, -, -, ⟨hcur, -⟩ | ⟨hparent, -⟩ | ⟨name, hname, hcase⟩⟩ := walkWith_cons h
    · cases hcur
    · cases hparent
    obtain rfl := Comp.normal.inj hname
    have hlink : ∀ target, os.view (l ++ [n]) ≠ some (.inl (.symlink target)) := fun target =>
      hfree [n] target (by simp) ⟨names, rfl⟩
    rcases hcase with ⟨-, hnil, rfl⟩ | ⟨target, hv, -⟩ | ⟨obj, hv, -, hrest⟩
    · obtain rfl := List.map_eq_nil_iff.mp hnil
      rfl
    · exact absurd hv (hlink target)
    · cases names with
      | nil =>
        obtain ⟨_, -, rfl⟩ := walkWith_nil hrest
        rfl
      | cons n' names =>
        have ih := @walkWith_names_loc os follow jump f (n' :: names) (l ++ [n]) (by simp)
          (fun pre target hne hpre => by
            rw [List.append_assoc]
            exact hfree (n :: pre) target (by simp) ((List.prefix_cons_inj n).mpr hpre)) hrest
        rw [ih, List.append_assoc]
        rfl

/-- And no link is followed. -/
theorem walkWith_names_jump {os : Os} {follow : Bool} (jump jump' : List Comp → Loc → Except IoErrorKind Found) :
    ∀ {names : List Name} {l : Loc},
      (∀ pre target, pre ≠ [] → pre <+: names → os.view (l ++ pre) ≠ some (.inl (.symlink target))) →
      walkWith os follow jump (names.map .normal) l = walkWith os follow jump' (names.map .normal) l
  | [], l, _ => by rw [List.map_nil, walkWith, walkWith]
  | n :: names, l, hfree => by
    have ih := @walkWith_names_jump os follow jump jump' names (l ++ [n]) fun pre target hne hpre => by
      rw [List.append_assoc]
      exact hfree (n :: pre) target (by simp) ((List.prefix_cons_inj n).mpr hpre)
    rw [List.map_cons, walkWith, walkWith]
    cases hv : os.view (l ++ [n]) with
    | none => rfl
    | some obj =>
      rcases obj with (_ | target | _) | _
      case inl.symlink => exact absurd hv (hfree [n] target (by simp) ⟨names, rfl⟩)
      all_goals
        simp only [ih]

section

variable {area : Loc → Prop} {n : ℕ} {os os' : Os}

/-- A link outside the area is where it was. -/
theorem Confined.link (hc : Confined area n os os') {k : Loc} {target : Path}
    (h : os.view k = some (.inl (.symlink target))) : os'.view k = some (.inl (.symlink target)) := by
  rwa [hc.outside k fun hk => hc.before k target hk h]

/-- What leads to a directory leads to it still, or is barred, with names behind it. -/
theorem Confined.walkWith_still (hc : Confined area n os os') {jump : List Comp → Loc → Except IoErrorKind Found}
    {jump' : Bool → List Comp → Loc → Except IoErrorKind Found} {dir : Loc} {mode : ℕ}
    (hjump : ∀ cs l, jump cs l = .ok (.entry dir (.inr mode)) →
      (∃ mode', jump' true cs l = .ok (.entry dir (.inr mode'))) ∨
        ∀ follow ds, ds ≠ [] → jump' follow (cs ++ ds) l = .error .permissionDenied) :
    ∀ (cs : List Comp) (l : Loc), walkWith os true jump cs l = .ok (.entry dir (.inr mode)) →
      (∃ mode', walkWith os' true (jump' true) cs l = .ok (.entry dir (.inr mode'))) ∨
        ∀ follow ds, ds ≠ [] → walkWith os' follow (jump' follow) (cs ++ ds) l = .error .permissionDenied
  | [], l, h => by
    obtain ⟨obj, hv, hentry⟩ := walkWith_nil h
    cases hentry
    obtain ⟨mode', hv'⟩ := hc.dirs dir mode hv
    exact Or.inl ⟨mode', by rw [walkWith, hv']⟩
  | c :: cs, l, h => by
    have ih := hc.walkWith_still hjump cs
    obtain ⟨m, hdir, -, hcase⟩ := walkWith_cons h
    obtain ⟨m', hv⟩ := hc.dirs l m hdir
    cases hs : os'.may m' ownerSearch with
    | false => exact Or.inr fun follow ds _ => walkWith_denied hv hs c (cs ++ ds)
    | true =>
      rcases hcase with ⟨rfl, hw⟩ | ⟨rfl, hw⟩ | ⟨name, rfl, hcase⟩
      · simp only [List.cons_append, walkWith_cur hv hs]
        exact ih _ hw
      · simp only [List.cons_append, walkWith_parent hv hs]
        exact ih _ hw
      · rcases hcase with ⟨-, -, hmiss⟩ | ⟨target, hlink, ⟨-, hfalse, -⟩ | hw⟩ | ⟨obj, hobj, -, hw⟩
        · cases hmiss
        · cases hfalse
        · have hlink' := hc.link hlink
          rw [walkWith_link hv hs hlink' (Or.inr rfl)]
          refine (hjump _ _ hw).imp_right fun hbarred follow ds hds => ?_
          rw [List.cons_append, walkWith_link hv hs hlink' (Or.inl (by simp [hds])), ← List.append_assoc]
          exact hbarred follow ds hds
        · have hdir' : ∃ m, os.view (l ++ [name]) = some (.inr m) := by
            cases cs with
            | nil =>
              obtain ⟨obj', hv', hentry⟩ := walkWith_nil hw
              cases hentry
              exact ⟨mode, hv'⟩
            | cons c cs =>
              obtain ⟨m'', hm'', -⟩ := walkWith_cons hw
              exact ⟨m'', hm''⟩
          obtain ⟨m'', hm''⟩ := hdir'
          obtain ⟨m₃, hm₃⟩ := hc.dirs _ _ hm''
          simp only [List.cons_append, walkWith_next hv hs hm₃ (by simp)]
          exact ih _ hw

theorem Confined.walk_still (hc : Confined area n os os') {dir : Loc} {mode : ℕ} :
    ∀ {links : ℕ} {cs : List Comp} {l : Loc}, walk os true links cs l = .ok (.entry dir (.inr mode)) →
      (∃ mode', walk os' true links cs l = .ok (.entry dir (.inr mode'))) ∨
        ∀ follow ds, ds ≠ [] → walk os' follow links (cs ++ ds) l = .error .permissionDenied
  | 0, cs, l, h => @Confined.walkWith_still area n os os' hc _ (fun _ _ _ => .error .filesystemLoop) dir mode (by simp) cs
      l h
  | links + 1, cs, l, h => @Confined.walkWith_still area n os os' hc _ (fun follow => walk os' follow links) dir mode
      (fun _ _ h => hc.walk_still h) cs l h

/-- No path below can be resolved for want of permission. -/
def Barred (os : Os) (base : Path) : Prop :=
  ∀ follow names, names ≠ [] → os.resolve follow (below base names) = .error .permissionDenied

theorem Confined.leads (hc : Confined area n os os') {base : Path} {dir : Loc} (h : Leads os base dir) :
    Leads os' base dir ∨ Barred os' base := by
  obtain ⟨mode, hw⟩ := h
  refine (hc.walk_still hw).imp (fun ⟨mode', hw'⟩ => ⟨mode', hc.toSameProcess.start base ▸ hw'⟩) fun hbarred => ?_
  intro follow names hne
  rw [resolve, below_isEmpty base hne, if_neg Bool.false_ne_true, kernelComps_below base hne, below_abs]
  have hstart : (if base.abs then [] else os'.cwd) = os.start base := hc.toSameProcess.start base
  rw [hstart]
  exact hbarred follow _ (by simpa using hne)

/-- A path with names below a directory does not get out of the area. -/
theorem Confined.loc_below (hc : Confined area n os os') {base : Path} {dir : Loc} (h : Leads os base dir)
    {names : List Name} (hne : names ≠ []) (harea : ∀ pre, pre ≠ [] → pre <+: names → area (dir ++ pre)) {follow : Bool}
    {f : Found} (hf : os'.resolve follow (below base names) = .ok f) : f.loc = dir ++ names := by
  have hfree : ∀ pre target, pre ≠ [] → pre <+: names → os'.view (dir ++ pre) ≠ some (.inl (.symlink target)) :=
    fun pre target hpre hstart => hc.linkFree _ target (harea pre hpre hstart)
  rcases hc.leads h with hleads | hbarred
  · have hresult := resolve_below_eq hleads hne fun jump =>
      @walkWith_names_jump os' follow jump (fun _ _ => .error .filesystemLoop) names dir hfree
    rw [hf] at hresult
    exact walkWith_names_loc hne hfree hresult.symm
  · rw [hbarred follow names hne] at hf
    cases hf

/-- Right below a directory something is there, or missing, or the way is barred. -/
theorem Confined.resolve_child (hc : Confined area n os os') {base : Path} {dir : Loc} (h : Leads os base dir)
    {x : Name} (follow : Bool) (harea : area (dir ++ [x])) : os'.resolve follow (below base [x]) ≠ .error .notFound := by
  have hlink : ∀ target, os'.view (dir ++ [x]) ≠ some (.inl (.symlink target)) := fun target =>
    hc.linkFree _ target harea
  rcases hc.leads h with hleads | hbarred
  · have hdirs : DirsAbove os' dir [x] := by
      intro pre hpre hne
      obtain rfl : pre = [] := by
        rcases List.prefix_cons_iff.mp hpre with hnil | ⟨t, rfl, ht⟩
        · exact hnil
        · obtain rfl := List.prefix_nil.mp ht
          exact absurd rfl hne
      rw [List.append_nil]
      exact hleads.dir
    by_cases hsearch : Searchable os' dir [x]
    · rw [resolve_below hleads (by simp) hdirs hsearch hlink follow]
      exact nofun
    · rw [resolve_below_denied hleads hdirs hsearch follow]
      exact nofun
  · rw [hbarred follow [x] (by simp)]
    exact nofun

end

/-! ### A path to nothing -/

/-- Nothing is there, or not even what it would be in. -/
def Absent (result : Except IoErrorKind Found) : Prop := result = .error .notFound ∨ ∃ k, result = .ok (.missing k)

/-- Behind a path to nothing there is nothing. -/
theorem walkWith_absent {os : Os} {follow : Bool} {jump jump' : List Comp → Loc → Except IoErrorKind Found}
    {ds : List Comp} (hds : ds ≠ [])
    (hjump : ∀ cs l, Absent (jump cs l) → jump' (cs ++ ds) l = .error .notFound) :
    ∀ (cs : List Comp) (l : Loc), Absent (walkWith os false jump cs l) →
      walkWith os follow jump' (cs ++ ds) l = .error .notFound
  | [], l, h => by
    obtain ⟨d, ds, rfl⟩ := List.exists_cons_of_ne_nil hds
    unfold walkWith at h
    rw [List.nil_append]
    unfold walkWith
    cases hv : os.view l with
    | none => rfl
    | some obj =>
      rw [hv] at h
      rcases h with h | ⟨k, h⟩ <;> cases h
  | c :: cs, l, h => by
    have ih := @walkWith_absent os follow jump jump' ds hds hjump cs
    have hne : cs ++ ds ≠ [] := by simp [hds]
    unfold walkWith at h
    rw [List.cons_append]
    unfold walkWith
    cases hv : os.view l with
    | none => rfl
    | some obj =>
      rcases obj with leaf | mode
      · rw [hv] at h
        rcases h with h | ⟨k, h⟩ <;> cases h
      · rw [hv] at h
        cases hs : os.may mode ownerSearch with
        | false =>
          simp only [hs, ↓reduceIte] at h
          rcases h with h | ⟨k, h⟩ <;> cases h
        | true =>
          simp only [hs, Bool.true_eq_false, ↓reduceIte] at h ⊢
          cases c with
          | cur => exact ih _ h
          | parent => exact ih _ h
          | normal name =>
            simp only at h ⊢
            cases hn : os.view (l ++ [name]) with
            | none => simp only [if_neg hne]
            | some obj =>
              rw [hn] at h
              rcases obj with (_ | target | _) | _
              case inl.symlink =>
                simp only [hne, false_and, ↓reduceIte] at h ⊢
                by_cases hcs : cs = []
                · simp only [hcs, and_self, ↓reduceIte] at h
                  rcases h with h | ⟨k, h⟩ <;> cases h
                · simp only [hcs, false_and, ↓reduceIte] at h
                  rw [← List.append_assoc]
                  exact hjump _ _ h
              all_goals exact ih _ h

theorem walk_absent {os : Os} {follow : Bool} {ds : List Comp} (hds : ds ≠ []) :
    ∀ {links : ℕ} {cs : List Comp} {l : Loc}, Absent (walk os false links cs l) →
      walk os follow links (cs ++ ds) l = .error .notFound
  | 0, cs, l, h => walkWith_absent hds (fun _ _ habsent => by rcases habsent with h | ⟨k, h⟩ <;> cases h) cs l h
  | _ + 1, cs, l, h => walkWith_absent hds (fun _ _ habsent => walk_absent hds habsent) cs l h

/-- What leads to a directory leads to something still, as far as one can tell. -/
theorem Confined.not_absent {area : Loc → Prop} {n : ℕ} {os os' : Os} (hc : Confined area n os os') {base : Path}
    {dir : Loc} (h : Leads os base dir) {x : Name} (harea : area (dir ++ [x])) {p : Path} (habs : p.abs = base.abs)
    (hcomps : p.comps = base.comps) (hdot : p.dot = false) (hemp : p.isEmpty = false) :
    ¬ Absent (os'.resolve false p) := by
  intro habsent
  refine hc.resolve_child h true harea ?_
  have hwalk : os'.resolve false p = walk os' false maxLinks base.comps (os'.start base) := by
    rw [resolve, hemp, if_neg Bool.false_ne_true, kernelComps, hdot, if_neg Bool.false_ne_true, List.append_nil, hcomps,
      habs]
    rfl
  rw [hwalk] at habsent
  have hchild := @walk_absent os' true [.normal x] (by simp) _ _ _ habsent
  have hne : [x] ≠ [] := List.cons_ne_nil x []
  rw [resolve, below_isEmpty base hne, if_neg Bool.false_ne_true, kernelComps_below base hne, below_abs]
  exact hchild

/-! ### The calls -/

section

variable {area : Loc → Prop} {n : ℕ} {os os' after : Os}

/-- Something put into the area, where a directory stays one. -/
theorem Confined.placed (hc : Confined area n os os') {k : Loc} {obj : Obj} (hplaced : Placed os' after k obj) (hk : area k)
    (hlink : ∀ target, obj ≠ .inl (.symlink target))
    (hdir : ∀ mode, os'.view k = some (.inr mode) → ∃ mode', obj = .inr mode')
    (hlen : os'.handles.length ≤ after.handles.length)
    (hmine : ∀ fd h l, n ≤ fd → after.handles[fd]? = some h → h.file = .inl l → area l) : Confined area n os after where
  toSameProcess := hc.toSameProcess.trans hplaced.toSameProcess
  outside j hj := by
    have hne : j ≠ k := by
      rintro rfl
      exact hj hk
    rw [hplaced.other hne]
    exact hc.outside j hj
  before := hc.before
  linkFree j target hj := by
    rw [hplaced.view]
    split
    · exact fun heq => hlink target (Option.some.inj heq)
    · exact hc.linkFree j target hj
  dirs j mode hj := by
    obtain ⟨mode', hj'⟩ := hc.dirs j mode hj
    rw [hplaced.view]
    split
    · rename_i heq
      obtain ⟨mode'', rfl⟩ := hdir mode' (heq ▸ hj')
      exact ⟨mode'', rfl⟩
    · exact ⟨mode', hj'⟩
  handles := hc.handles.trans hlen
  mine := hmine

/-- The tree is the same. -/
theorem Confined.sameView (hc : Confined area n os os') (hprocess : SameProcess os' after)
    (hview : ∀ k, after.view k = os'.view k) (hlen : os'.handles.length ≤ after.handles.length)
    (hmine : ∀ fd h l, n ≤ fd → after.handles[fd]? = some h → h.file = .inl l → area l) : Confined area n os after where
  toSameProcess := hc.toSameProcess.trans hprocess
  outside j hj := (hview j).trans (hc.outside j hj)
  before := hc.before
  linkFree j target hj := by
    rw [hview]
    exact hc.linkFree j target hj
  dirs j mode hj := by
    rw [hview]
    exact hc.dirs j mode hj
  handles := hc.handles.trans hlen
  mine := hmine

theorem mkdir_handles {p : Path} (h : os.mkdir p = .ok after) : after.handles = os.handles := by
  unfold mkdir at h
  split at h
  · cases h
  · cases h
  · split at h
    · obtain rfl := Except.ok.inj h
      rfl
    · cases h

theorem confined_mkdir (hc : Confined area n os os') {p : Path}
    (harea : ∀ f, os'.resolve false p = .ok f → area f.loc ∨ ¬ Absent (.ok f)) :
    Confined area n os (step (.mkdir p) os').2 := by
  have hstep : step (.mkdir p) os' = os'.done (os'.mkdir p) := rfl
  rw [hstep]
  cases hmkdir : os'.mkdir p with
  | error e => exact hc
  | ok after =>
    obtain ⟨l, hresolve, -, hplaced⟩ := mkdir_eq_ok hmkdir
    have hhandles := mkdir_handles hmkdir
    have hnone : os'.view l = none := (resolve_sound hresolve).1
    rcases harea _ hresolve with hl | hno
    · show Confined area n os after
      refine hc.placed hplaced hl nofun (fun mode hv => ?_) (by rw [hhandles]) (by rw [hhandles]; exact hc.mine)
      rw [hnone] at hv
      cases hv
    · exact absurd (Or.inr ⟨l, rfl⟩) hno

theorem openWrite_device {p : Path} {mode fd m : ℕ} {f : Found} (h : os.openWrite p mode = .ok (fd, after))
    (hresolve : os.resolve true p = .ok f) (hv : os.view f.loc = some (.inl (.other m))) :
    (fd, after) = os.deviceHandle := by
  have hsound := resolve_sound hresolve
  cases f with
  | missing l => cases hsound.1.symm.trans hv
  | entry l obj =>
    obtain rfl := Option.some.inj ((show os.view l = some obj from hsound).symm.trans hv)
    unfold openWrite at h
    rw [hresolve] at h
    simp only at h
    split at h
    · cases h
    · split at h
      · exact (Except.ok.inj h).symm
      · cases h

/-- A handle that was added. -/
theorem Confined.mine_append (hc : Confined area n os os') {h : Handle} (hfile : ∀ l, h.file = .inl l → area l)
    (fd : ℕ) (h' : Handle) (l : Loc) (hfd : n ≤ fd) (hget : (os'.handles ++ [h])[fd]? = some h')
    (hl : h'.file = .inl l) : area l := by
  rcases Nat.lt_or_ge fd os'.handles.length with hlt | hge
  · rw [List.getElem?_append_left hlt] at hget
    exact hc.mine fd h' l hfd hget hl
  · rw [List.getElem?_append_right hge] at hget
    obtain ⟨hlt, hh⟩ := List.getElem?_eq_some_iff.mp hget
    have hzero : fd - os'.handles.length = 0 := by
      rw [List.length_singleton] at hlt
      omega
    simp only [hzero, List.getElem_cons_zero] at hh
    exact hfile l (hh ▸ hl)

/-- The file that is opened is in the area, and so is what is written to its handle. -/
theorem confined_openWrite (hc : Confined area n os os') {p : Path} (mode : ℕ)
    (harea : ∀ f, os'.resolve true p = .ok f → area f.loc) :
    Confined area n os (step (.openWrite p mode) os').2 ∧
      ∀ fd, (step (.openWrite p mode) os').1 = .ok fd → n ≤ fd := by
  have hstep : step (.openWrite p mode) os' = os'.answer (os'.openWrite p mode) := rfl
  rw [hstep]
  cases hopen : os'.openWrite p mode with
  | error e => exact ⟨hc, nofun⟩
  | ok opened =>
    obtain ⟨fd, after⟩ := opened
    have hshow : os'.answer (.ok (fd, after)) = (.ok fd, after) := rfl
    rw [hshow]
    obtain ⟨f, hresolve, ⟨m, hv⟩ | ⟨hnodir, hplaced, hfd, hhandles⟩⟩ := openWrite_eq_ok hopen
    · obtain ⟨rfl, rfl⟩ := Prod.mk.inj (openWrite_device hopen hresolve hv)
      refine ⟨hc.sameView ⟨rfl, rfl, rfl, rfl⟩ (fun _ => rfl) ?_ ?_, fun fd hfd => ?_⟩
      · show os'.handles.length ≤ (os'.handles ++ [_]).length
        rw [List.length_append]
        exact Nat.le_add_right _ _
      · exact @Confined.mine_append area n os os' hc ⟨.inr os'.orphans.length, 0⟩ nofun
      · obtain rfl := Except.ok.inj hfd
        exact hc.handles
    · refine ⟨hc.placed hplaced (harea f hresolve) nofun (fun m hm => absurd hm (hnodir m)) ?_ ?_, fun fd' hfd' => ?_⟩
      · rw [hhandles, List.length_append]
        exact Nat.le_add_right _ _
      · rw [hhandles]
        refine hc.mine_append fun l hl => ?_
        obtain rfl := Sum.inl.inj hl
        exact harea f hresolve
      · obtain rfl := Except.ok.inj hfd'
        rw [hfd]
        exact hc.handles

theorem confined_write (hc : Confined area n os os') {fd : ℕ} (hfd : n ≤ fd) (data : Bytes) :
    Confined area n os (step (.write fd data) os').2 := by
  have hstep : step (.write fd data) os' = os'.done (os'.write fd data) := rfl
  rw [hstep]
  unfold write
  cases hget : os'.handles[fd]? with
  | none => exact hc
  | some h =>
    simp only
    have hmine : ∀ (offset j : ℕ) (h' : Handle) (l : Loc), n ≤ j →
        (os'.handles.set fd { h with offset := offset })[j]? = some h' → h'.file = .inl l → area l := by
      intro offset j h' l hj hget' hl
      rw [List.getElem?_set] at hget'
      split at hget'
      · split at hget'
        · obtain rfl := Option.some.inj hget'
          exact hc.mine fd h l hfd hget hl
        · cases hget'
      · exact hc.mine j h' l hj hget' hl
    cases hcontent : os'.contentOf h with
    | none => exact hc
    | some content =>
      dsimp only
      by_cases hdata : data = []
      · rw [if_pos hdata]
        exact hc
      rw [if_neg hdata]
      obtain ⟨file, offset⟩ := h
      cases file with
      | inr k =>
        refine hc.sameView ⟨rfl, rfl, rfl, rfl⟩ (fun _ => rfl) (le_of_eq ?_) (hmine _)
        exact List.length_set.symm
      | inl k =>
        have hk : area k := hc.mine fd _ k hfd hget rfl
        obtain ⟨mode, content', hv⟩ : ∃ mode content', os'.view k = some (.inl (.file mode content')) := by
          unfold contentOf at hcontent
          simp only at hcontent
          split at hcontent
          · rename_i mode content' hv
            exact ⟨mode, content', hv⟩
          · cases hcontent
        have hset : os'.setContent ⟨.inl k, offset⟩ (overwrite content offset data) =
            os'.withLeaf k (.file (os'.clearedBits mode) (overwrite content offset data)) := by
          unfold setContent
          simp only [hv]
        simp only [hset]
        have hplaced : Placed os' ((os'.withLeaf k (.file (os'.clearedBits mode) (overwrite content offset data))).setHandle
            fd ⟨.inl k, offset + data.length⟩) k (.inl (.file (os'.clearedBits mode) (overwrite content offset data))) :=
          ⟨⟨rfl, rfl, rfl, rfl⟩, (placed_withLeaf hv _).view⟩
        refine hc.placed hplaced hk nofun (fun m hm => ?_) (le_of_eq ?_) (hmine _)
        · rw [hv] at hm
          cases hm
        · exact List.length_set.symm

theorem confined_chmod (hc : Confined area n os os') {p : Path} (mode : ℕ)
    (harea : ∀ f, os'.resolve true p = .ok f → area f.loc) : Confined area n os (step (.chmod p mode) os').2 := by
  have hstep : step (.chmod p mode) os' = os'.done (os'.chmod p mode) := rfl
  rw [hstep]
  cases hlookup : os'.lookup true p with
  | error e =>
    have hchmod : os'.chmod p mode = .error e := by simp only [chmod, hlookup]
    rw [hchmod]
    exact hc
  | ok found =>
    obtain ⟨l, obj⟩ := found
    obtain ⟨after, hchmod, hplaced, hhandles⟩ := chmod_eq mode hlookup
    obtain ⟨hresolve, hv, -⟩ := lookup_eq_ok hlookup
    rw [Bool.true_or] at hresolve
    rw [hchmod]
    show Confined area n os after
    refine hc.placed hplaced (harea _ hresolve) ?_ ?_ (by rw [hhandles]) (by rw [hhandles]; exact hc.mine)
    · intro target heq
      have hk : area l := harea _ hresolve
      rcases obj with (_ | target' | _) | _
      case inl.symlink => exact hc.linkFree l target' hk hv
      all_goals cases heq
    · intro m hm
      obtain rfl := Option.some.inj (hv.symm.trans hm)
      exact ⟨mode, rfl⟩

end

end Os

end Rsdb
