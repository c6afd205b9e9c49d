/-
# Receiving below a directory that is there

The destination leads to a directory, and the places above an entry are there.
Then the permission bits alone decide: the entry arrives if the directories
above it can be searched, and if the one it is in can be changed where it is
new, or a file that is there can be written (`CanPlace`); else it fails.
-/
import Rsdb.Os.Below
import Rsdb.Transfer.Received

namespace Rsdb

namespace Os

/-! ### The calls of an entry -/

/-- The bits allow an object to be placed at `dir ++ names`. -/
structure CanPlace (os : Os) (dir : Loc) (names : List Name) : Prop where
  search : Searchable os dir names
  change : os.view (dir ++ names) = none → os.mayChange (dir ++ names) = true
  write : ∀ mode content, os.view (dir ++ names) = some (.inl (.file mode content)) → os.may mode ownerWrite = true

/-- The place of names below a directory, with the directories above it there. -/
structure Spot (os : Os) (base : Path) (dir : Loc) (names : List Name) : Prop where
  leads : Leads os base dir
  named : names ≠ []
  above : DirsAbove os dir names

section

variable {os : Os} {base : Path} {dir : Loc} {names : List Name}

theorem Spot.resolve (h : Spot os base dir names) (hsearch : Searchable os dir names)
    (hlink : ∀ target, os.view (dir ++ names) ≠ some (.inl (.symlink target))) (follow : Bool) :
    os.resolve follow (below base names) = .ok (os.foundAt (dir ++ names)) :=
  resolve_below h.leads h.named h.above hsearch hlink follow

theorem Spot.denied (h : Spot os base dir names) (hsearch : ¬ Searchable os dir names) (follow : Bool) :
    os.resolve follow (below base names) = .error .permissionDenied :=
  resolve_below_denied h.leads h.above hsearch follow

theorem Spot.lookup (h : Spot os base dir names) (hsearch : Searchable os dir names) {obj : Obj}
    (hv : os.view (dir ++ names) = some obj) (hlink : ∀ target, obj ≠ .inl (.symlink target)) :
    os.lookup true (below base names) = .ok (dir ++ names, obj) := by
  have hr := h.resolve hsearch (fun target heq => hlink target (Option.some.inj (hv.symm.trans heq))) true
  have hslash := below_slash base h.named
  rw [Os.lookup, hslash, Bool.or_false, hr, foundAt, hv]
  simp

theorem Spot.isDirAt (h : Spot os base dir names)
    (hlink : ∀ target, os.view (dir ++ names) ≠ some (.inl (.symlink target))) :
    os.isDirAt (below base names) = true ↔
      Searchable os dir names ∧ ∃ mode, os.view (dir ++ names) = some (.inr mode) := by
  have hslash := below_slash base h.named
  by_cases hsearch : Searchable os dir names
  · have hr := h.resolve hsearch hlink true
    rw [Os.isDirAt, Os.lookup, hslash, Bool.or_false, hr, foundAt]
    cases os.view (dir ++ names) with
    | none => simp
    | some obj => cases obj <;> simp [hsearch]
  · have hr := h.denied hsearch true
    rw [Os.isDirAt, Os.lookup, hslash, Bool.or_false, hr]
    simp [hsearch]

/-- A directory that is not there yet, with its parent: `create_dir_all` is one `mkdir`. -/
theorem run_createDirAll_below (h : Spot os base dir names)
    (hkind : ∀ leaf, os.view (dir ++ names) ≠ some (.inl leaf)) :
    (CanPlace os dir names → ∃ os', Prog.run step (Act.createDirAll (below base names)) os = (.ok (.ok ()), os') ∧
      ((os.view (dir ++ names) = none ∧ Placed os os' (dir ++ names) (.inr (os.masked 0o777))) ∨
        ((∃ mode, os.view (dir ++ names) = some (.inr mode)) ∧ os' = os))) ∧
    (¬ CanPlace os dir names → ∃ err, Prog.run step (Act.createDirAll (below base names)) os = (.ok (.error err), os)) := by
  have hlink : ∀ target, os.view (dir ++ names) ≠ some (.inl (.symlink target)) := fun target => hkind _
  have hancestors : ∃ parents, (below base names).ancestors = below base names :: parents := by
    obtain ⟨q, hq⟩ := Path.exists_parent (p := below base names) (by simp [h.named])
    exact ⟨_, Path.ancestors_of_parent hq⟩
  obtain ⟨parents, hparents⟩ := hancestors
  rw [Act.createDirAll, hparents, run_createDirs]
  by_cases hsearch : Searchable os dir names
  · have hr := h.resolve hsearch hlink false
    cases hv : os.view (dir ++ names) with
    | some obj =>
      obtain ⟨mode, rfl⟩ : ∃ mode, obj = .inr mode := by
        cases obj with
        | inl leaf => exact absurd hv (hkind leaf)
        | inr mode => exact ⟨mode, rfl⟩
      have hcan : CanPlace os dir names := ⟨hsearch, by simp [hv], by simp [hv]⟩
      have hdir := (h.isDirAt hlink).mpr ⟨hsearch, mode, hv⟩
      refine ⟨fun _ => ⟨os, ?_, Or.inr ⟨⟨mode, rfl⟩, rfl⟩⟩, fun hno => absurd hcan hno⟩
      simp [Os.mkdir, hr, foundAt, hv, hdir]
    | none =>
      cases hc : os.mayChange (dir ++ names) with
      | true =>
        have hcan : CanPlace os dir names := ⟨hsearch, fun _ => hc, by simp [hv]⟩
        have hmk : os.mkdir (below base names) = .ok (os.withDir (dir ++ names) (os.masked 0o777)) := by
          simp [Os.mkdir, hr, foundAt, hv, hc]
        obtain ⟨l, hl, -, hplaced⟩ := mkdir_eq_ok hmk
        rw [hr, foundAt, hv, Except.ok.injEq, Found.missing.injEq] at hl
        rw [hmk]
        exact ⟨fun _ => ⟨_, rfl, Or.inl ⟨rfl, hl ▸ hplaced⟩⟩, fun hno => absurd hcan hno⟩
      | false =>
        have hno : ¬ CanPlace os dir names := fun hcan => by simpa [hc] using hcan.change hv
        have hdir : os.isDirAt (below base names) = false := by
          rw [Bool.eq_false_iff, Ne, h.isDirAt hlink]
          simp [hv]
        refine ⟨fun hcan => absurd hcan hno, fun _ => ⟨IoErrorKind.permissionDenied.toError, ?_⟩⟩
        simp [Os.mkdir, hr, foundAt, hv, hc, hdir]
  · have hr := h.denied hsearch false
    have hno : ¬ CanPlace os dir names := fun hcan => hsearch hcan.search
    have hdir : os.isDirAt (below base names) = false := by
      rw [Bool.eq_false_iff, Ne, h.isDirAt hlink]
      exact fun hand => hsearch hand.1
    refine ⟨fun hcan => absurd hcan hno, fun _ => ⟨IoErrorKind.permissionDenied.toError, ?_⟩⟩
    simp [Os.mkdir, hr, hdir]

/-- Opening a file for writing. -/
theorem openWrite_below (h : Spot os base dir names) (mode : ℕ)
    (hkind : ∀ obj, os.view (dir ++ names) = some obj → ∃ m content, obj = .inl (.file m content)) :
    (CanPlace os dir names → ∃ fd os', os.openWrite (below base names) mode = .ok (fd, os') ∧
      ∃ m, Placed os os' (dir ++ names) (.inl (.file m [])) ∧ Opened os os' fd ⟨.inl (dir ++ names), 0⟩) ∧
    (¬ CanPlace os dir names → ∃ e, os.openWrite (below base names) mode = .error e) := by
  have hslash := below_slash base h.named
  have hlink : ∀ target, os.view (dir ++ names) ≠ some (.inl (.symlink target)) := by
    intro target hv
    obtain ⟨m, content, heq⟩ := hkind _ hv
    cases heq
  by_cases hsearch : Searchable os dir names
  · have hr := h.resolve hsearch hlink true
    have hok : ∀ {fd : ℕ} {os' : Os}, os.openWrite (below base names) mode = .ok (fd, os') →
        ∃ m, Placed os os' (dir ++ names) (.inl (.file m [])) ∧ Opened os os' fd ⟨.inl (dir ++ names), 0⟩ := by
      intro fd os' hopen
      obtain ⟨f, hf, hcase⟩ := openWrite_eq_ok hopen
      rw [hr, Except.ok.injEq] at hf
      have hloc : f.loc = dir ++ names := by
        rw [← hf, foundAt]
        cases os.view (dir ++ names) <;> rfl
      rw [hloc] at hcase
      rcases hcase with ⟨m, hother⟩ | ⟨-, hplaced, hopened⟩
      · obtain ⟨m', content, heq⟩ := hkind _ hother
        cases heq
      · exact ⟨_, hplaced, hopened⟩
    cases hv : os.view (dir ++ names) with
    | none =>
      cases hc : os.mayChange (dir ++ names) with
      | true =>
        have hcan : CanPlace os dir names := ⟨hsearch, fun _ => hc, by simp [hv]⟩
        have hopen : ∃ r, os.openWrite (below base names) mode = .ok r := by
          simp [Os.openWrite, hr, foundAt, hv, hslash, createFile, hc]
        obtain ⟨⟨fd, os'⟩, hopen⟩ := hopen
        exact ⟨fun _ => ⟨fd, os', hopen, hok hopen⟩, fun hno => absurd hcan hno⟩
      | false =>
        have hno : ¬ CanPlace os dir names := fun hcan => by simpa [hc] using hcan.change hv
        refine ⟨fun hcan => absurd hcan hno, fun _ => ⟨.permissionDenied, ?_⟩⟩
        simp [Os.openWrite, hr, foundAt, hv, hslash, createFile, hc]
    | some obj =>
      obtain ⟨m, content, rfl⟩ := hkind _ hv
      cases hw : os.may m ownerWrite with
      | true =>
        have hcan : CanPlace os dir names := by
          refine ⟨hsearch, by simp [hv], fun m' content' hm' => ?_⟩
          rw [hv] at hm'
          cases hm'
          exact hw
        have hopen : ∃ r, os.openWrite (below base names) mode = .ok r := by
          simp [Os.openWrite, hr, foundAt, hv, hslash, hw]
        obtain ⟨⟨fd, os'⟩, hopen⟩ := hopen
        exact ⟨fun _ => ⟨fd, os', hopen, hok hopen⟩, fun hno => absurd hcan hno⟩
      | false =>
        have hno : ¬ CanPlace os dir names := fun hcan => by simpa [hw] using hcan.write m content hv
        refine ⟨fun hcan => absurd hcan hno, fun _ => ⟨.permissionDenied, ?_⟩⟩
        simp [Os.openWrite, hr, foundAt, hv, hslash, hw]
  · have hr := h.denied hsearch true
    have hno : ¬ CanPlace os dir names := fun hcan => hsearch hcan.search
    refine ⟨fun hcan => absurd hcan hno, fun _ => ⟨.permissionDenied, ?_⟩⟩
    simp [Os.openWrite, hr]

/-! ### After something was placed -/

/-- A change at a place that had neither a directory with other bits nor a link. -/
theorem Placed.keeps {os' : Os} {l : Loc} {obj : Obj} (h : Placed os os' l obj)
    (hdir : ∀ mode, os.view l = some (.inr mode) → obj = .inr mode)
    (hlink : ∀ target, os.view l ≠ some (.inl (.symlink target))) : Keeps os os' where
  toSameProcess := h.toSameProcess
  dir k mode hk := by
    rw [h.view]
    split
    · rename_i heq
      rw [hdir mode (heq ▸ hk)]
    · exact hk
  link k target hk := by
    rw [h.view]
    split
    · rename_i heq
      exact absurd (heq ▸ hk) (hlink target)
    · exact hk

theorem append_ne_append {pre : List Name} (hne : pre ≠ names) : dir ++ pre ≠ dir ++ names :=
  fun heq => hne (List.append_cancel_left heq)

theorem Placed.searchable {os' : Os} {obj : Obj} (h : Placed os os' (dir ++ names) obj)
    (hs : Searchable os dir names) : Searchable os' dir names := by
  intro pre hpre hne mode hmode
  rw [h.other (append_ne_append hne)] at hmode
  rw [h.toSameProcess.may]
  exact hs pre hpre hne mode hmode

theorem Placed.spot {os' : Os} {obj : Obj} (h : Placed os os' (dir ++ names) obj) (hspot : Spot os base dir names)
    (hkeeps : Keeps os os') : Spot os' base dir names where
  leads := hspot.leads.keeps hkeeps
  named := hspot.named
  above pre hpre hne := by
    rw [h.other (append_ne_append hne)]
    exact hspot.above pre hpre hne

theorem run_chmod_below (h : Spot os base dir names) (hsearch : Searchable os dir names) {obj : Obj}
    (hv : os.view (dir ++ names) = some obj) (hlink : ∀ target, obj ≠ .inl (.symlink target)) {entryMode : ℕ}
    (hmode : entryMode ≠ 0) (mode : ℕ) :
    ∃ os', Prog.run step (Receiver.setPermissions (below base names) entryMode mode) os = (.ok (), os') ∧
      Placed os os' (dir ++ names) (objWithMode mode obj) := by
  obtain ⟨os', hchmod, hplaced, -⟩ := chmod_eq mode (h.lookup hsearch hv hlink)
  refine ⟨os', ?_, hplaced⟩
  have hstep : step (.chmod (below base names) mode) os = (.ok (), os') := by rw [step, hchmod]; rfl
  rw [Receiver.setPermissions, if_neg hmode, Act.chmod, Prog.ask_bind, Prog.run_call, hstep]
  rfl

/-! ### The directory above -/

/-- Without the last name. -/
theorem parent_below (base : Path) {pre : List Name} (hne : pre ≠ []) (name : Name) :
    (below base (pre ++ [name])).parent = some (below base pre) := by
  obtain ⟨front, m, rfl⟩ := (List.eq_nil_or_concat pre).resolve_left hne
  simp only [below, List.concat_eq_append, List.foldl_append, List.foldl_cons, List.foldl_nil]
  exact Path.parent_push _ m name

theorem parent_below_singleton (base : Path) (name : Name) : ∃ parent, (below base [name]).parent = some parent ∧
    parent.abs = base.abs ∧ parent.comps = base.comps ∧ parent.dot = false := by
  obtain ⟨parent, hparent⟩ := Path.exists_parent (p := below base [name]) (by simp)
  obtain ⟨-, hcomps, habs, hdot, -⟩ := Path.parent_eq_some hparent
  rw [below_comps, List.map_singleton, List.dropLast_concat] at hcomps
  exact ⟨parent, hparent, habs.trans (below_abs base [name]), hcomps, hdot⟩

theorem Spot.parent {pre : List Name} {name : Name} (h : Spot os base dir (pre ++ [name])) (hne : pre ≠ []) :
    Spot os base dir pre where
  leads := h.leads
  named := hne
  above ds hds hdne := by
    refine h.above ds (hds.trans (List.prefix_append _ _)) fun heq => ?_
    have hlen := hds.length_le
    rw [heq, List.length_append, List.length_singleton] at hlen
    omega

end

/-- A path to a directory, with any slash at its end, is there for `create_dir_all`. -/
theorem run_createDirAll_leads {os : Os} {base p : Path} {dir : Loc} (h : Leads os base dir)
    (habs : p.abs = base.abs) (hcomps : p.comps = base.comps) (hdot : p.dot = false) (hemp : p.isEmpty = false) :
    Prog.run step (Act.createDirAll p) os = (.ok (.ok ()), os) := by
  obtain ⟨mode, hw⟩ := h
  have hres : ∀ follow, os.resolve follow p = walk os follow maxLinks base.comps (os.start base) := by
    intro follow
    rw [resolve, hemp, if_neg (by simp), kernelComps, hdot, if_neg (by simp), List.append_nil, hcomps, habs]
    rfl
  have hmkdir : os.mkdir p = .error .alreadyExists := by
    have hentry : ∃ l obj, walk os false maxLinks base.comps (os.start base) = .ok (.entry l obj) := by
      by_contra hno
      have hsame := walk_follow os maxLinks base.comps (os.start base) fun l t hlt => hno ⟨l, _, hlt⟩
      exact hno ⟨dir, _, hsame ▸ hw⟩
    obtain ⟨l, obj, hentry⟩ := hentry
    rw [Os.mkdir, hres, hentry]
  have hdir : os.isDirAt p = true := by
    rw [Os.isDirAt, Os.lookup, Bool.true_or, hres, hw]
    simp
  have hcons : ∃ parents, p.ancestors = p :: parents := by
    cases hp : p.parent with
    | none => exact ⟨[], by rw [Path.ancestors_of_root hp, hemp]; rfl⟩
    | some q => exact ⟨_, Path.ancestors_of_parent hp⟩
  obtain ⟨parents, hparents⟩ := hcons
  rw [Act.createDirAll, hparents, run_createDirs, hmkdir]
  simp [hdir]

end Os

/-! ### One entry -/

/-- The run returns, with `Q`, where `C` holds, and fails where it does not. -/
structure Decides {α : Type} (C : Prop) (Q : α → Os → Prop) (x : Act α) (os : Os) : Prop where
  returns : C → ∃ a os', Prog.run Os.step x os = (.ok a, os') ∧ Q a os'
  fails : ¬ C → ∃ err os', Prog.run Os.step x os = (.error err, os')

/-- A second part that decides whenever the first has returned. -/
theorem Decides.bind {α β : Type} {C D : Prop} {Q : α → Os → Prop} {R : β → Os → Prop} {x : Act α} {f : α → Act β}
    {os : Os} (hx : Decides C Q x os) (hf : ∀ a os', Q a os' → Decides D R (f a) os') :
    Decides (C ∧ D) R (x >>= f) os where
  returns h := by
    obtain ⟨a, os1, hrun, hQ⟩ := hx.returns h.1
    rw [Prog.run_bind, hrun]
    exact (hf a os1 hQ).returns h.2
  fails h := by
    by_cases hC : C
    · obtain ⟨a, os1, hrun, hQ⟩ := hx.returns hC
      rw [Prog.run_bind, hrun]
      exact (hf a os1 hQ).fails fun hD => h ⟨hC, hD⟩
    · obtain ⟨err, os1, hrun⟩ := hx.fails hC
      rw [Prog.run_bind, hrun]
      exact ⟨err, os1, rfl⟩

theorem Decides.pure {α : Type} {Q : α → Os → Prop} {a : α} {os : Os} (h : Q a os) :
    Decides True Q (.pure a) os :=
  ⟨fun _ => ⟨a, os, rfl, h⟩, fun hno => absurd trivial hno⟩

theorem Decides.of_run {α : Type} {x : Act α} {os os' : Os} {a : α} (h : Prog.run Os.step x os = (.ok a, os')) :
    Decides True (fun b t => b = a ∧ t = os') x os :=
  ⟨fun _ => ⟨a, os', h, rfl, rfl⟩, fun hno => absurd trivial hno⟩

theorem Decides.bind_pure {α β : Type} {C : Prop} {Q : α → Os → Prop} {R : β → Os → Prop} {x : Act α} {g : α → β}
    {os : Os} (hx : Decides C Q x os) (h : ∀ a os', Q a os' → R (g a) os') :
    Decides C R (x >>= fun a => .pure (g a)) os := by
  have hbind := hx.bind fun a os' hQ => Decides.pure (h a os' hQ)
  rwa [and_true] at hbind

namespace Receiver

open Os

variable (r : Receiver) {os : Os} {base : Path} {dir : Loc} {names : List Name}

theorem run_createDirectory {p : Path} {os os' : Os} {result : Except IoError Unit}
    (h : Prog.run step (Act.createDirAll p) os = (.ok result, os')) :
    ∃ outcome, Prog.run step (r.createDirectory p) os = (outcome, os') ∧ (result = .ok () → outcome = .ok ()) ∧
      ∀ err, result = .error err → ∃ err', outcome = .error err' := by
  rw [createDirectory, Prog.run_bind, h]
  cases result with
  | ok u => exact ⟨.ok (), rfl, fun _ => rfl, by simp⟩
  | error err => exact ⟨_, rfl, by simp, fun _ _ => ⟨_, rfl⟩⟩

/-- The directories an entry is under are there. -/
theorem run_createParents_below (h : Spot os base dir names) :
    ∃ outcome, Prog.run step (r.createParents (below base names)) os = (outcome, os) ∧
      (Searchable os dir names → outcome = .ok ()) := by
  obtain ⟨pre, name, rfl⟩ := (List.eq_nil_or_concat names).resolve_left h.named
  rw [List.concat_eq_append] at h ⊢
  rcases eq_or_ne pre [] with rfl | hne
  · obtain ⟨parent, hparent, habs, hcomps, hdot⟩ := parent_below_singleton base name
    rw [List.nil_append, createParents, hparent]
    cases hemp : parent.isEmpty with
    | true => exact ⟨.ok (), by simp [hemp], fun _ => rfl⟩
    | false =>
      have hrun := run_createDirAll_leads h.leads habs hcomps hdot hemp
      obtain ⟨outcome, houtcome, hok, -⟩ := r.run_createDirectory hrun
      exact ⟨outcome, by simpa [hemp] using houtcome, fun _ => hok rfl⟩
  · have hspot := h.parent hne
    obtain ⟨mode, hv⟩ := h.above pre (List.prefix_append _ _) (by simp)
    have hemp := below_isEmpty base hne
    obtain ⟨hcan, hcannot⟩ := run_createDirAll_below hspot (by simp [hv])
    rw [createParents, parent_below base hne]
    simp only [hemp, Bool.false_eq_true, ↓reduceIte]
    by_cases hc : CanPlace os dir pre
    · obtain ⟨os', hrun, ⟨hnone, -⟩ | ⟨-, rfl⟩⟩ := hcan hc
      · rw [hv] at hnone
        cases hnone
      · obtain ⟨outcome, houtcome, hok, -⟩ := r.run_createDirectory hrun
        exact ⟨outcome, houtcome, fun _ => hok rfl⟩
    · obtain ⟨err, hrun⟩ := hcannot hc
      obtain ⟨outcome, houtcome, -, -⟩ := r.run_createDirectory hrun
      refine ⟨outcome, houtcome, fun hsearch => absurd ⟨?_, by simp [hv], by simp [hv]⟩ hc⟩
      exact fun ds hds hdne => hsearch ds (hds.trans (List.prefix_append _ _)) fun heq => by
        have hlen := hds.length_le
        rw [heq, List.length_append, List.length_singleton] at hlen
        omega

theorem receiveDirectory_decides (h : Spot os base dir names) (hkind : ∀ leaf, os.view (dir ++ names) ≠ some (.inl leaf))
    (entry : TransferEntry) (hmode : entry.mode ≠ 0) :
    Decides (CanPlace os dir names) (fun _ os' => Placed os os' (dir ++ names) (.inr (entry.mode &&& 0o7777)))
      (r.receiveDirectory (below base names) entry) os := by
  obtain ⟨hcan, hcannot⟩ := run_createDirAll_below h hkind
  constructor
  · intro hc
    obtain ⟨os1, hrun, hcase⟩ := hcan hc
    obtain ⟨outcome, houtcome, hok, -⟩ := r.run_createDirectory hrun
    obtain rfl := hok rfl
    rw [receiveDirectory, Prog.run_bind, houtcome]
    rcases hcase with ⟨hnone, hplaced⟩ | ⟨⟨mode, hv⟩, rfl⟩
    · have hkeeps := hplaced.keeps (by simp [hnone]) (by simp [hnone])
      obtain ⟨os2, hchmod, hplaced2⟩ := run_chmod_below (hplaced.spot h hkeeps) (hplaced.searchable hc.search)
        hplaced.self (by simp) hmode (entry.mode &&& 0o7777)
      exact ⟨(), os2, hchmod, hplaced.trans hplaced2⟩
    · obtain ⟨os2, hchmod, hplaced⟩ := run_chmod_below h hc.search hv (by simp) hmode (entry.mode &&& 0o7777)
      exact ⟨(), os2, hchmod, hplaced⟩
  · intro hc
    obtain ⟨err, hrun⟩ := hcannot hc
    obtain ⟨outcome, houtcome, -, hfail⟩ := r.run_createDirectory hrun
    obtain ⟨err', rfl⟩ := hfail err rfl
    rw [receiveDirectory, Prog.run_bind, houtcome]
    exact ⟨err', os, rfl⟩

theorem receiveRegular_decides (h : Spot os base dir names)
    (hkind : ∀ obj, os.view (dir ++ names) = some obj → ∃ m content, obj = .inl (.file m content))
    (entry : TransferEntry) (hmode : entry.mode ≠ 0) {reads : List Bytes}
    (hsizes : ∀ c ∈ reads, 0 < c.length ∧ c.length ≤ defaultStreamChunkSize)
    (hsize : entry.size = reads.flatten.length) (bytes : ℕ) (rest : Bytes) :
    Decides (CanPlace os dir names)
      (fun out os' => out = (bytes + entry.size, rest) ∧
        Placed os os' (dir ++ names) (.inl (.file (r.fileMode entry.mode) reads.flatten)))
      (r.receiveRegular (below base names) entry bytes (chunksBytes r.requestId reads ++ rest)) os := by
  obtain ⟨outcome, hparents, hsearch⟩ := r.run_createParents_below h
  obtain ⟨hcan, hcannot⟩ := openWrite_below h (normalizeMode entry.mode) hkind
  constructor
  · intro hc
    obtain ⟨fd, os1, hopen, m, hplaced, hopened⟩ := hcan hc
    obtain rfl := hsearch hc.search
    have hstep : step (.openWrite (below base names) (normalizeMode entry.mode)) os = (.ok fd, os1) := by
      rw [step, hopen]; rfl
    have hfuel : reads.length ≤ (chunksBytes r.requestId reads ++ rest).length := by
      have := length_le_chunksBytes r.requestId reads
      rw [List.length_append]
      omega
    obtain ⟨os2, hfile, m', hplaced2⟩ := r.run_receiveFile (below base names) rest reads hsizes _ bytes [] os1 hfuel
      hopened.get hplaced.self
    rw [List.nil_append] at hplaced2
    have hplaced' := hplaced.trans hplaced2
    have hkeeps : Keeps os os2 := by
      refine hplaced'.keeps (fun mode hv => ?_) fun target hv => ?_
      · obtain ⟨m, content, heq⟩ := hkind _ hv
        cases heq
      · obtain ⟨m, content, heq⟩ := hkind _ hv
        cases heq
    obtain ⟨os3, hchmod, hplaced3⟩ := run_chmod_below (hplaced'.spot h hkeeps) (hplaced'.searchable hc.search)
      hplaced'.self (by simp) hmode (r.fileMode entry.mode)
    refine ⟨(bytes + entry.size, rest), os3, ?_, rfl, hplaced'.trans hplaced3⟩
    rw [receiveRegular, Prog.run_bind, hparents]
    simp only [Act.openWrite, Prog.ask_bind]
    rw [Prog.run_call, hstep]
    simp only [Act.ioContext, Prog.pure_eq, Prog.pure_bind]
    rw [hsize, Prog.run_bind, hfile]
    simp only
    rw [Prog.run_bind, hchmod]
    rfl
  · intro hc
    obtain ⟨e, hopen⟩ := hcannot hc
    have hstep : step (.openWrite (below base names) (normalizeMode entry.mode)) os = (.error e.toError, os) := by
      rw [step, hopen]; rfl
    rw [receiveRegular, Prog.run_bind, hparents]
    cases outcome with
    | error err => exact ⟨err, os, rfl⟩
    | ok u =>
      simp only [Act.openWrite, Prog.ask_bind]
      rw [Prog.run_call, hstep]
      exact ⟨_, os, rfl⟩

theorem receiveEntry_decides (hexact : r.Exact) (h : Spot os base dir names) {rootPaths : List Path} {item : Item}
    {root : Path} (hroot : rootPaths[item.entry.rootIndex]? = some root) (htarget : item.target root = below base names)
    (hplain : Obj.Plain item.obj) (htext : ∀ name ∈ item.names, isUtf8 name.1 = true)
    (hsame : ∀ old, os.view (dir ++ names) = some old → old = item.arrives)
    {reads : List Bytes} (hreads : item.ReadAs reads) (bytes : ℕ) (rest : Bytes) :
    Decides (CanPlace os dir names)
      (fun out os' => out = (bytes + item.entry.size, rest) ∧ Placed os os' (dir ++ names) item.arrives)
      (r.receiveEntry rootPaths item.entry bytes (chunksBytes r.requestId reads ++ rest)) os := by
  have hpath : resolveTransferEntryPath rootPaths item.entry = .ok (below base names) :=
    resolveTransferEntryPath_eq_ok.mpr ⟨root, item.names, hroot, Item.relativeNames_entry htext, htarget⟩
  obtain ⟨rootIndex, path, itemNames, obj⟩ := item
  rw [receiveEntry, hpath, Prog.ofExcept_ok, Prog.pure_bind]
  cases obj with
  | inr mode =>
    obtain rfl := hreads.eq_nil rfl
    have harrives : Item.arrives ⟨rootIndex, path, itemNames, .inr mode⟩ = .inr (Rsdb.fileMode mode &&& 0o7777) :=
      congrArg Sum.inr (fileMode_fileMode mode).symm
    have hkind : ∀ leaf, os.view (dir ++ names) ≠ some (.inl leaf) := fun leaf hleaf => by
      have hold := hsame _ hleaf
      rw [harrives] at hold
      cases hold
    have hdecides := r.receiveDirectory_decides h hkind (Item.entry ⟨rootIndex, path, itemNames, .inr mode⟩) hplain
    refine hdecides.bind_pure fun _ os' hplaced => ⟨rfl, ?_⟩
    rw [harrives]
    exact hplaced
  | inl leaf =>
    cases leaf with
    | symlink target => exact hplain.elim
    | other mode => exact hplain.elim
    | file mode content =>
      have hcontent : reads.flatten = content := hreads.content
      have hmode : r.fileMode (Rsdb.fileMode mode) = Rsdb.fileMode mode := hexact _ hplain (fileMode_fileMode mode)
      have harrives : Item.arrives ⟨rootIndex, path, itemNames, .inl (.file mode content)⟩ =
          .inl (.file (r.fileMode (Rsdb.fileMode mode)) reads.flatten) := by
        rw [hmode, hcontent]
        rfl
      rw [harrives]
      exact r.receiveRegular_decides h (fun old hold => ⟨_, _, (hsame old hold).trans harrives⟩)
        (Item.entry ⟨rootIndex, path, itemNames, .inl (.file mode content)⟩) hplain hreads.sizes
        (by rw [hcontent]; rfl) bytes rest

end Receiver

end Rsdb
