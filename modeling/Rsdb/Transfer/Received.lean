/-
# What a received batch leaves

A receiver that is not stopped by a failing call of the operating system, on
paths without links: `create_dir_all` adds directories where nothing was
(`MadeDirs`), an entry puts its object at its place (`Arrived`), and the entries
of a batch all arrive, each with the bytes of its own frames, while the rest of
the tree stays as it was but for missing directories above them (`Overlaid`).

The statements are weakest preconditions whose failures are those of the
operating system only (`AnyhowError.FromOs`): a frame that does not fit the
entry it is read for, or a connection that ends too early, is none of them.
-/
import Rsdb.Os.Effects
import Rsdb.Transfer.Manifest

namespace Rsdb

open Prog (wp wp_bind wp_call wp_mono wp_iff_run)

/-- The error of a call of the operating system: what a connection fails with is
the end of the stream. -/
def AnyhowError.FromOs (err : AnyhowError) : Prop :=
  ∃ kind, kind ≠ .unexpectedEof ∧ .io kind ∈ err.chain

theorem AnyhowError.FromOs.context {err : AnyhowError} (h : err.FromOs) (message : Str) :
    (err.context message).FromOs := by
  obtain ⟨kind, hne, hmem⟩ := h
  exact ⟨kind, hne, List.mem_cons_of_mem _ hmem⟩

theorem fromOs_ofIo {err : IoError} (h : err.kind ≠ .unexpectedEof) : (AnyhowError.ofIo err).FromOs :=
  ⟨err.kind, h, List.mem_singleton.mpr rfl⟩

/-- A run that ends as `P` says unless a call of the operating system fails. -/
abbrev Ends {α : Type} (P : α → Os → Prop) (x : Act α) (os : Os) : Prop :=
  wp Os.step P (fun err _ => err.FromOs) x os

theorem ends_ioContext {α : Type} {P : α → Os → Prop} {context : Str} {r : Except IoError α} {os : Os}
    (hok : ∀ a, r = .ok a → P a os) (herr : ∀ e, r = .error e → e.kind ≠ .unexpectedEof) :
    Ends P (Act.ioContext context r) os := by
  cases r with
  | ok a => exact hok a rfl
  | error e => exact (fromOs_ofIo (herr e rfl)).context context

namespace Os

/-! ### Creating directories -/

/-- There is a directory at the path. -/
def isDirAt (os : Os) (p : Path) : Bool :=
  match os.lookup true p with
  | .ok (_, .inr _) => true
  | _ => false

theorem step_mkdir (os : Os) (p : Path) :
    step (.mkdir p) os =
      match os.mkdir p with
      | .ok os' => (.ok (), os')
      | .error e => (.error e.toError, os) := by
  cases h : os.mkdir p <;> simp [step, done, h]

theorem run_isDir (p : Path) (os : Os) : Prog.run step (Act.isDir p) os = (.ok (os.isDirAt p), os) := by
  simp only [Act.isDir, Act.stat, Prog.ask_bind, Prog.run_call, step_stat, isDirAt]
  cases h : os.lookup true p with
  | error e => rfl
  | ok r =>
    obtain ⟨loc, obj⟩ := r
    cases obj with
    | inr mode => rfl
    | inl leaf => cases leaf <;> rfl

/-- One step of `create_dir_all`. -/
theorem run_createDirs (p : Path) (parents : List Path) (os : Os) :
    Prog.run step (Act.createDirs (p :: parents)) os =
      match os.mkdir p with
      | .ok os' => (.ok (.ok ()), os')
      | .error e =>
        if e ≠ .notFound then (.ok (if os.isDirAt p then .ok () else .error e.toError), os)
        else if p.parent = none then (.ok (.error Act.wholeTree), os)
        else
          match Prog.run step (Act.createDirs parents) os with
          | (.error err, os') => (.error err, os')
          | (.ok (.error err), os') => (.ok (.error err), os')
          | (.ok (.ok ()), os') =>
            match os'.mkdir p with
            | .ok os'' => (.ok (.ok ()), os'')
            | .error e => (.ok (if os'.isDirAt p then .ok () else .error e.toError), os') := by
  have hokIfDir : ∀ (os : Os) (err : IoError), Prog.run step (Act.okIfDir p err) os =
      (.ok (if os.isDirAt p then .ok () else .error err), os) := by
    intro os err
    rw [Act.okIfDir, Prog.run_bind, run_isDir]
    cases os.isDirAt p <;> rfl
  rw [Act.createDirs, Act.mkdir, Prog.ask_bind, Prog.run_call, step_mkdir]
  cases os.mkdir p with
  | ok os' => rfl
  | error e =>
    have hkind : e.toError.kind = e := rfl
    simp only [hkind]
    split
    · exact hokIfDir os _
    · split
      · rfl
      · rw [Prog.run_bind]
        rcases Prog.run step (Act.createDirs parents) os with ⟨r, os'⟩
        cases r with
        | error err => rfl
        | ok r =>
          cases r with
          | error err => rfl
          | ok u =>
            simp only [Prog.ask_bind, Prog.run_call, step_mkdir]
            cases os'.mkdir p with
            | ok os'' => rfl
            | error e => exact hokIfDir os' _

/-- The place of some prefix of the components. -/
def Above (l : Loc) (cs : List Comp) (k : Loc) : Prop := ∃ ds, ds <+: cs ∧ placeOf l ds = k

/-- The proper prefixes of the components. -/
def Under (l : Loc) (cs : List Comp) (k : Loc) : Prop := ∃ ds, ds <+: cs ∧ ds ≠ cs ∧ placeOf l ds = k

theorem Under.above {l : Loc} {cs : List Comp} {k : Loc} (h : Under l cs k) : Above l cs k := by
  obtain ⟨ds, hds, -, hk⟩ := h
  exact ⟨ds, hds, hk⟩

theorem Above.under {l : Loc} {cs : List Comp} {k : Loc} (h : Above l cs k) (hk : k ≠ placeOf l cs) :
    Under l cs k := by
  obtain ⟨ds, hds, rfl⟩ := h
  exact ⟨ds, hds, fun heq => hk (by rw [heq]), rfl⟩

/-- Directories have been created, at places with `Q` where nothing was. -/
structure MadeDirs (Q : Loc → Prop) (os os' : Os) : Prop extends SameProcess os os' where
  view : ∀ k, os'.view k = os.view k ∨
    (os.view k = none ∧ os'.view k = some (.inr (os.masked 0o777)) ∧ Q k)

theorem MadeDirs.refl (Q : Loc → Prop) (os : Os) : MadeDirs Q os os := ⟨SameProcess.refl os, fun _ => Or.inl rfl⟩

theorem MadeDirs.mono {Q Q' : Loc → Prop} {os os' : Os} (h : MadeDirs Q os os') (hQ : ∀ k, Q k → Q' k) :
    MadeDirs Q' os os' :=
  ⟨h.toSameProcess, fun k => (h.view k).imp_right fun ⟨h1, h2, h3⟩ => ⟨h1, h2, hQ k h3⟩⟩

theorem masked_eq {os os' : Os} (h : SameProcess os os') (mode : ℕ) : os'.masked mode = os.masked mode := by
  rw [masked, masked, h.umask]

theorem MadeDirs.trans {Q : Loc → Prop} {a b c : Os} (h : MadeDirs Q a b) (h' : MadeDirs Q b c) :
    MadeDirs Q a c where
  toSameProcess := h.toSameProcess.trans h'.toSameProcess
  view k := by
    rcases h'.view k with hbc | ⟨hnone, hdir, hQ⟩
    · rw [hbc]
      exact h.view k
    · rcases h.view k with hab | ⟨-, hsome, -⟩
      · exact Or.inr ⟨hab ▸ hnone, masked_eq h.toSameProcess _ ▸ hdir, hQ⟩
      · rw [hsome] at hnone
        cases hnone

/-- What was a leaf is that leaf, and there is no new one. -/
theorem MadeDirs.leaf {Q : Loc → Prop} {os os' : Os} (h : MadeDirs Q os os') {k : Loc} {leaf : Leaf} :
    os'.view k = some (.inl leaf) ↔ os.view k = some (.inl leaf) := by
  rcases h.view k with heq | ⟨hnone, hdir, -⟩
  · rw [heq]
  · simp [hnone, hdir]

theorem MadeDirs.dir {Q : Loc → Prop} {os os' : Os} (h : MadeDirs Q os os') {k : Loc} {mode : ℕ}
    (hk : os.view k = some (.inr mode)) : os'.view k = some (.inr mode) := by
  rcases h.view k with heq | ⟨hnone, -, -⟩
  · rw [heq, hk]
  · rw [hk] at hnone
    cases hnone

theorem MadeDirs.noLinks {Q : Loc → Prop} {os os' : Os} (h : MadeDirs Q os os') {l : Loc} {cs : List Comp}
    (hnl : NoLinks os l cs) : NoLinks os' l cs :=
  fun ds hds target hlink => hnl ds hds target (h.leaf.mp hlink)

/-- A directory that is found where there are no links. -/
theorem isDirAt_place {os : Os} {p : Path} (hnl : NoLinks os (os.start p) p.comps) (h : os.isDirAt p = true) :
    ∃ mode, os.view (os.place p) = some (.inr mode) := by
  unfold isDirAt at h
  split at h
  · rename_i l mode hl
    obtain ⟨hr, hv, -⟩ := lookup_eq_ok hl
    exact ⟨mode, (resolve_plain hnl hr).1 ▸ hv⟩
  · cases h

theorem mkdir_plain {os os' : Os} {p : Path} (hnl : NoLinks os (os.start p) p.comps) (h : os.mkdir p = .ok os') :
    MadeDirs (Above (os.start p) p.comps) os os' ∧ ∃ mode, os'.view (os.place p) = some (.inr mode) := by
  obtain ⟨l, hr, -, hplaced⟩ := mkdir_eq_ok h
  have hl : l = os.place p := (resolve_plain hnl hr).1
  refine ⟨⟨hplaced.toSameProcess, fun k => ?_⟩, ⟨_, hl ▸ hplaced.self⟩⟩
  by_cases hk : k = l
  · subst hk
    exact Or.inr ⟨(resolve_sound hr).1, hplaced.self, p.comps, List.prefix_rfl, hl.symm⟩
  · exact Or.inl (hplaced.other hk)

/-- `create_dir_all` where there are no links: directories on the path, and one
at its place. -/
theorem createDirAll_plain : ∀ (n : ℕ) (p : Path), p.comps.length = n → p.isEmpty = false → ∀ {os os' : Os},
    NoLinks os (os.start p) p.comps → Prog.run step (Act.createDirAll p) os = (.ok (.ok ()), os') →
      MadeDirs (Above (os.start p) p.comps) os os' ∧ ∃ mode, os'.view (os.place p) = some (.inr mode)
  | n, p, hn, hemp, os, os', hnl, h => by
    have hdone : ∀ {os1 : Os} {e : IoError}, MadeDirs (Above (os.start p) p.comps) os os1 →
        ((.ok (if os1.isDirAt p then .ok () else .error e), os1) :
          Except AnyhowError (Except IoError Unit) × Os) = (.ok (.ok ()), os') →
        MadeDirs (Above (os.start p) p.comps) os os' ∧ ∃ mode, os'.view (os.place p) = some (.inr mode) := by
      intro os1 e hmade heq
      by_cases hdir : os1.isDirAt p = true
      · obtain ⟨-, rfl⟩ := Prod.mk.inj heq
        refine ⟨hmade, ?_⟩
        rw [← hmade.toSameProcess.place]
        exact isDirAt_place (hmade.start p ▸ hmade.noLinks hnl) hdir
      · simp [hdir] at heq
    have hcons : p.ancestors = p :: p.ancestors.tail := by
      cases hp : p.parent with
      | none => rw [Path.ancestors_of_root hp, hemp]; rfl
      | some q => rw [Path.ancestors_of_parent hp, List.tail_cons]
    rw [Act.createDirAll, hcons, run_createDirs] at h
    cases hm : os.mkdir p with
    | ok os1 =>
      simp only [hm, Prod.mk.injEq, true_and] at h
      exact h ▸ mkdir_plain hnl hm
    | error e =>
      simp only [hm] at h
      split at h
      · exact hdone (MadeDirs.refl _ os) h
      · split at h
        · cases h
        · rename_i hparent
          obtain ⟨q, hq⟩ := Option.ne_none_iff_exists'.mp hparent
          obtain ⟨hne, hqcomps⟩ := Path.parent_comps hq
          have hstart : ∀ os : Os, os.start q = os.start p := fun os => by
            rw [Os.start, Os.start, Path.parent_abs hq]
          have hpre : q.comps <+: p.comps := hqcomps ▸ List.dropLast_prefix _
          have hparents : p.ancestors.tail = q.ancestors := by
            rw [Path.ancestors_of_parent hq, List.tail_cons]
          have hnlq : NoLinks os (os.start q) q.comps := fun ds hds => hstart os ▸ hnl ds (hds.trans hpre)
          rw [hparents] at h
          rcases hrun : Prog.run step (Act.createDirs q.ancestors) os with ⟨r, os1⟩
          rw [hrun] at h
          cases r with
          | error err => cases h
          | ok r =>
            cases r with
            | error err => cases h
            | ok u =>
              have hmade : MadeDirs (Above (os.start p) p.comps) os os1 := by
                cases hqe : q.isEmpty with
                | true =>
                  rw [Path.ancestors_of_root (Path.parent_of_isEmpty hqe), hqe] at hrun
                  obtain ⟨-, rfl⟩ := Prod.mk.inj hrun
                  exact MadeDirs.refl _ os
                | false =>
                  have hlt : q.comps.length < n := by
                    have := List.length_pos_iff.mpr hne
                    rw [hqcomps, List.length_dropLast]
                    omega
                  refine (createDirAll_plain q.comps.length q rfl hqe hnlq hrun).1.mono fun k hk => ?_
                  obtain ⟨ds, hds, rfl⟩ := hk
                  exact ⟨ds, hds.trans hpre, by rw [hstart]⟩
              have hsame : os1.start p = os.start p := hmade.start p
              have hnl1 : NoLinks os1 (os1.start p) p.comps := hsame ▸ hmade.noLinks hnl
              cases hm1 : os1.mkdir p with
              | error e => simp only [hm1] at h; exact hdone hmade h
              | ok os2 =>
                simp only [hm1, Prod.mk.injEq, true_and] at h
                subst h
                obtain ⟨hmade2, hdir⟩ := mkdir_plain hnl1 hm1
                exact ⟨hmade.trans (hsame ▸ hmade2), hmade.place p ▸ hdir⟩
termination_by n => n

/-- What `create_dir_all` fails with. -/
theorem createDirs_fails : ∀ (ps : List Path) (os : Os),
    ∃ r os', Prog.run step (Act.createDirs ps) os = (.ok r, os') ∧ ∀ err, r = .error err → err.kind ≠ .unexpectedEof
  | [], os => ⟨.ok (), os, rfl, by simp⟩
  | p :: parents, os => by
    have hkind : ∀ (os : Os) (e : IoErrorKind), os.mkdir p = .error e →
        ∀ err, (if os.isDirAt p then .ok () else .error e.toError : Except IoError Unit) = .error err →
          err.kind ≠ .unexpectedEof := by
      intro os e he err herr
      split at herr
      · cases herr
      · cases herr
        show e ≠ _
        exact fun heq => mkdir_error os p (heq ▸ he)
    rw [run_createDirs]
    cases hm : os.mkdir p with
    | ok os1 => exact ⟨_, _, rfl, by simp⟩
    | error e =>
      simp only
      split
      · exact ⟨_, _, rfl, hkind os e hm⟩
      · split
        · refine ⟨_, _, rfl, fun err herr => ?_⟩
          cases herr
          simp [Act.wholeTree]
        · obtain ⟨r, os1, hrun, hr⟩ := createDirs_fails parents os
          rw [hrun]
          cases r with
          | error err => exact ⟨_, _, rfl, hr⟩
          | ok u =>
            simp only
            cases hm1 : os1.mkdir p with
            | ok os2 => exact ⟨_, _, rfl, by simp⟩
            | error e1 => exact ⟨_, _, rfl, hkind os1 e1 hm1⟩

end Os

/-! ### One entry -/

namespace Receiver

open Os

variable (r : Receiver)

theorem createDirectory_ends {p : Path} {os : Os} (hnl : NoLinks os (os.start p) p.comps) :
    Ends (fun _ os' => MadeDirs (Above (os.start p) p.comps) os os' ∧
        (p.isEmpty = false → ∃ mode, os'.view (os.place p) = some (.inr mode)))
      (r.createDirectory p) os := by
  rw [Ends, createDirectory, wp_bind, wp_iff_run]
  obtain ⟨result, os1, hrun, hfail⟩ := createDirs_fails p.ancestors os
  refine ⟨fun a t hat => ?_, fun e t het => ?_⟩
  · refine ends_ioContext (fun u hu => ?_) fun e he => ?_
    · subst hu
      cases hemp : p.isEmpty with
      | false =>
        obtain ⟨hmade, hdir⟩ := createDirAll_plain _ p rfl hemp hnl hat
        exact ⟨hmade, fun _ => hdir⟩
      | true =>
        rw [Act.createDirAll, Path.ancestors_of_root (Path.parent_of_isEmpty hemp), hemp] at hat
        obtain ⟨-, rfl⟩ := Prod.mk.inj hat
        exact ⟨MadeDirs.refl _ os, by simp⟩
    · rw [Act.createDirAll, hrun] at hat
      obtain ⟨hr, -⟩ := Prod.mk.inj hat
      exact hfail e ((Except.ok.inj hr).trans he)
  · rw [Act.createDirAll, hrun] at het
    cases het

theorem createParents_ends {p : Path} {os : Os} (hnl : NoLinks os (os.start p) p.comps) :
    Ends (fun _ os' => MadeDirs (Under (os.start p) p.comps) os os') (r.createParents p) os := by
  rw [createParents]
  cases hp : p.parent with
  | none => exact MadeDirs.refl _ os
  | some q =>
    obtain ⟨hne, hqcomps⟩ := Path.parent_comps hp
    have hstart : os.start q = os.start p := by rw [Os.start, Os.start, Path.parent_abs hp]
    have hpre : q.comps <+: p.comps := hqcomps ▸ List.dropLast_prefix _
    cases hq : q.isEmpty with
    | true => simpa [hq] using MadeDirs.refl _ os
    | false =>
      have hnlq : NoLinks os (os.start q) q.comps := fun ds hds => hstart ▸ hnl ds (hds.trans hpre)
      simp only [hq, Bool.false_eq_true, ↓reduceIte]
      refine wp_mono (fun _ os1 hmade => ?_) (r.createDirectory_ends hnlq)
      refine hmade.1.mono fun k hk => ?_
      obtain ⟨ds, hds, rfl⟩ := hk
      refine ⟨ds, hds.trans hpre, fun heq => ?_, by rw [hstart]⟩
      have hlen := hds.length_le
      rw [heq, hqcomps, List.length_dropLast] at hlen
      have := List.length_pos_iff.mpr hne
      omega

theorem setPermissions_ends {p : Path} {entryMode mode : ℕ} (hmode : entryMode ≠ 0) {os : Os} :
    Ends (fun _ os' => ∃ l obj, os.lookup true p = .ok (l, obj) ∧ Placed os os' l (objWithMode mode obj))
      (setPermissions p entryMode mode) os := by
  rw [setPermissions, if_neg hmode, Act.chmod, Prog.ask_bind, Ends, wp_call]
  cases h : os.chmod p mode with
  | error e =>
    have hstep : step (.chmod p mode) os = (.error e.toError, os) := by rw [step, h]; rfl
    rw [hstep]
    exact ends_ioContext (by simp) fun err herr => by
      cases herr
      exact fun heq : e = _ => chmod_error os p mode (heq ▸ h)
  | ok os1 =>
    have hstep : step (.chmod p mode) os = (.ok (), os1) := by rw [step, h]; rfl
    rw [hstep]
    exact ends_ioContext (fun _ _ => chmod_eq_ok h) (by simp)

/-- What arrives at a path is there; its place is in directories; the rest is as
it was, but for missing directories above. A directory stays one. -/
structure Arrived (os os' : Os) (p : Path) (obj : Obj) : Prop extends SameProcess os os' where
  self : os'.view (os.place p) = some obj
  above : ∀ k, Under (os.start p) p.comps k → ∃ mode, os'.view k = some (.inr mode)
  other : ∀ k, k ≠ os.place p → os'.view k = os.view k ∨
    (os.view k = none ∧ os'.view k = some (.inr (os.masked 0o777)) ∧ Under (os.start p) p.comps k)
  kept : ∀ mode, os.view (os.place p) = some (.inr mode) → obj.isRight = true

/-- The object is placed when the directories above it are there. -/
theorem Arrived.of_placed {os os1 os' : Os} {p : Path} {obj : Obj}
    (hmade : MadeDirs (Above (os.start p) p.comps) os os1) (hplaced : Placed os1 os' (os.place p) obj)
    (habove : ∀ k, Under (os.start p) p.comps k → ∃ mode, os1.view k = some (.inr mode))
    (hkept : ∀ mode, os1.view (os.place p) = some (.inr mode) → obj.isRight = true) : Arrived os os' p obj where
  toSameProcess := hmade.toSameProcess.trans hplaced.toSameProcess
  self := hplaced.self
  above k hk := by
    obtain ⟨mode, hdir⟩ := habove k hk
    by_cases heq : k = os.place p
    · subst heq
      obtain ⟨m, rfl⟩ := Sum.isRight_iff.mp (hkept mode hdir)
      exact ⟨m, hplaced.self⟩
    · exact ⟨mode, by rw [hplaced.other heq, hdir]⟩
  other k hk := by
    rw [hplaced.other hk]
    exact (hmade.view k).imp_right fun ⟨hnone, hdir, habove⟩ => ⟨hnone, hdir, habove.under hk⟩
  kept mode hdir := hkept mode (hmade.dir hdir)

theorem isEmpty_of_resolve {os : Os} {follow : Bool} {p : Path} {f : Found} (h : os.resolve follow p = .ok f) :
    p.isEmpty = false := by
  unfold resolve at h
  split at h
  · cases h
  · rename_i hemp
    simpa using hemp

/-- On a path without links the places above a thing that is found are directories. -/
theorem resolve_above {os : Os} {follow : Bool} {p : Path} {f : Found}
    (hnl : NoLinks os (os.start p) p.comps) (h : os.resolve follow p = .ok f) :
    f.loc = os.place p ∧ ∀ k, Under (os.start p) p.comps k → ∃ mode, os.view k = some (.inr mode) := by
  obtain ⟨hloc, hdirs⟩ := resolve_plain hnl h
  refine ⟨hloc, fun k ⟨ds, hds, hne, hk⟩ => ?_⟩
  obtain ⟨mode, hdir, -⟩ := hdirs ds hds hne
  exact ⟨mode, hk ▸ hdir⟩

theorem receiveDirectory_ends {p : Path} (entry : TransferEntry) (hmode : entry.mode ≠ 0) {os : Os}
    (hnl : NoLinks os (os.start p) p.comps) :
    Ends (fun _ os' => Arrived os os' p (.inr (entry.mode &&& 0o7777))) (r.receiveDirectory p entry) os := by
  rw [receiveDirectory, Ends, wp_bind]
  refine wp_mono (fun _ os1 ⟨hmade, hdir⟩ => ?_) (r.createDirectory_ends hnl)
  refine wp_mono (fun _ os' ⟨l, obj, hlook, hplaced⟩ => ?_) (setPermissions_ends hmode)
  obtain ⟨hres, hv, -⟩ := lookup_eq_ok hlook
  have hnl1 : NoLinks os1 (os1.start p) p.comps := hmade.start p ▸ hmade.noLinks hnl
  obtain ⟨hloc, habove⟩ := resolve_above hnl1 hres
  rw [hmade.start p] at habove
  have hl : l = os.place p := hloc.trans (hmade.place p)
  obtain ⟨m, hm⟩ := hdir (isEmpty_of_resolve hres)
  rw [hl, hm, Option.some.injEq] at hv
  rw [hl, ← hv] at hplaced
  exact Arrived.of_placed hmade hplaced habove fun _ _ => rfl

/-- A file is filled with the reads that were sent for it, whatever comes after
them, and what comes after them is left. Its bits may be cleared. -/
theorem run_receiveFile (path : Path) {fd : ℕ} {l : Loc} {m : ℕ} (rest : Bytes) : ∀ (reads : List Bytes),
    (∀ c ∈ reads, 0 < c.length ∧ c.length ≤ defaultStreamChunkSize) → ∀ (fuel bytes : ℕ) (content : Bytes) (os : Os),
      reads.length ≤ fuel → os.handles[fd]? = some ⟨.inl l, content.length⟩ →
      os.view l = some (.inl (.file m content)) →
      ∃ os', Prog.run step (r.receiveFile path fd fuel reads.flatten.length bytes
          (chunksBytes r.requestId reads ++ rest)) os = (.ok (bytes + reads.flatten.length, rest), os') ∧
        ∃ m', Placed os os' l (.inl (.file m' (content ++ reads.flatten)))
  | [], _, fuel, bytes, content, os, _, _, hv =>
    ⟨os, by cases fuel <;> rfl, m, Placed.of_view (by rw [hv, List.flatten_nil, List.append_nil])⟩
  | c :: cs, hsizes, fuel, bytes, content, os, hfuel, hfd, hv => by
    obtain ⟨hpos, hmax⟩ := hsizes c List.mem_cons_self
    obtain ⟨fuel, rfl⟩ := Nat.exists_eq_add_of_le' (Nat.lt_of_lt_of_le (Nat.succ_pos _) hfuel)
    have hlen : (c :: cs).flatten.length = c.length - 1 + cs.flatten.length + 1 := by
      rw [List.flatten_cons, List.length_append]
      omega
    have hinput : chunksBytes r.requestId (c :: cs) ++ rest =
        (chunkFrame r.requestId c).bytes ++ (chunksBytes r.requestId cs ++ rest) := by
      simp only [chunksBytes, List.map_cons, framesBytes_cons, List.append_assoc]
    have hchunk := r.readFileStreamChunk_chunkFrame c (chunksBytes r.requestId cs ++ rest) (chunk_le_max hmax)
    obtain ⟨os1, hwrite, hplaced, hfd1⟩ := write_at_end hfd hv c
    obtain ⟨os2, hrun, m', hplaced2⟩ := run_receiveFile path rest cs (fun d hd => hsizes d (List.mem_cons_of_mem _ hd))
      fuel (bytes + c.length) (content ++ c) os1 (by simpa using hfuel) hfd1 hplaced.self
    have hne : c ≠ [] := List.length_pos_iff.mp hpos
    have hstep : step (.write fd c) os = (.ok (), os1) := by rw [step, hwrite]; rfl
    have hrem : c.length - 1 + cs.flatten.length + 1 - c.length = cs.flatten.length := by omega
    have hio : r.ioWrite path (.ok ()) = .pure () := by
      unfold ioWrite
      split <;> rfl
    refine ⟨os2, ?_, ?_⟩
    · rw [hlen, hinput, receiveFile, hchunk]
      simp only [Bool.false_eq_true, ↓reduceIte, hne]
      have hsum : bytes + c.length + cs.flatten.length = bytes + (c.length - 1 + cs.flatten.length + 1) := by omega
      rw [if_neg (by omega), Act.write, Prog.ask_bind, Prog.run_call, hstep, hio, Prog.pure_bind, hrem, hrun, hsum]
    · rw [List.flatten_cons, ← List.append_assoc]
      exact ⟨m', hplaced.trans hplaced2⟩

/-- No link, device or the like is on the path or at its end. -/
def Regular (os : Os) (p : Path) : Prop :=
  ∀ k, Above (os.start p) p.comps k → ∀ leaf, os.view k = some (.inl leaf) → ∃ mode content, leaf = .file mode content

theorem Regular.noLinks {os : Os} {p : Path} (h : Regular os p) : NoLinks os (os.start p) p.comps := by
  intro ds hds target hlink
  obtain ⟨mode, content, hfile⟩ := h _ ⟨ds, hds, rfl⟩ _ hlink
  cases hfile

theorem receiveRegular_ends {p : Path} (entry : TransferEntry) (hmode : entry.mode ≠ 0) {reads : List Bytes}
    (hsizes : ∀ c ∈ reads, 0 < c.length ∧ c.length ≤ defaultStreamChunkSize)
    (hsize : entry.size = reads.flatten.length) (bytes : ℕ) (rest : Bytes) {os : Os} (hreg : Regular os p) :
    Ends (fun out os' => out = (bytes + entry.size, rest) ∧
        Arrived os os' p (.inl (.file (r.fileMode entry.mode) reads.flatten)))
      (r.receiveRegular p entry bytes (chunksBytes r.requestId reads ++ rest)) os := by
  rw [receiveRegular, Ends, wp_bind]
  refine wp_mono (fun _ os1 (hmade : MadeDirs (Under (os.start p) p.comps) os os1) => ?_)
    (r.createParents_ends hreg.noLinks)
  have hnl1 : NoLinks os1 (os1.start p) p.comps := hmade.start p ▸ hmade.noLinks hreg.noLinks
  rw [Act.openWrite, Prog.ask_bind, wp_call]
  cases hopen : os1.openWrite p (normalizeMode entry.mode) with
  | error e =>
    have hstep : step (.openWrite p (normalizeMode entry.mode)) os1 = (.error e.toError, os1) := by
      rw [step, hopen]; rfl
    rw [hstep, wp_bind]
    exact ends_ioContext (by simp) fun err herr => by
      cases herr
      exact fun heq : e = _ => openWrite_error os1 p _ (heq ▸ hopen)
  | ok opened =>
    obtain ⟨fd, os2⟩ := opened
    have hstep : step (.openWrite p (normalizeMode entry.mode)) os1 = (.ok fd, os2) := by
      rw [step, hopen]; rfl
    rw [hstep, wp_bind]
    refine ends_ioContext (fun fd' hfd' => ?_) (by simp)
    obtain rfl := Except.ok.inj hfd'
    obtain ⟨f, hres, hcases⟩ := openWrite_eq_ok hopen
    obtain ⟨hloc, habove⟩ := resolve_above hnl1 hres
    rw [hmade.start p] at habove
    rw [hloc, hmade.place p] at hcases
    have hself : Above (os.start p) p.comps (os.place p) := ⟨p.comps, List.prefix_rfl, rfl⟩
    rcases hcases with ⟨m, hother⟩ | ⟨hnodir, hplaced, hopened⟩
    · obtain ⟨mode, content, hfile⟩ := hreg _ hself _ (hmade.leaf.mp hother)
      cases hfile
    · have hfuel : reads.length ≤ (chunksBytes r.requestId reads ++ rest).length := by
        have := length_le_chunksBytes r.requestId reads
        rw [List.length_append]
        omega
      obtain ⟨os3, hrun, m', hplaced3⟩ := r.run_receiveFile p rest reads hsizes _ bytes [] os2 hfuel hopened.get
        hplaced.self
      rw [List.nil_append] at hplaced3
      rw [wp_bind, wp_iff_run, hsize, hrun]
      refine ⟨fun out t hout => ?_, by simp⟩
      obtain ⟨hok, rfl⟩ := Prod.mk.inj hout
      obtain rfl := Except.ok.inj hok
      rw [wp_bind]
      refine wp_mono (fun _ os4 hset => ?_) (setPermissions_ends hmode)
      obtain ⟨l, obj, hlook, hplaced4⟩ := hset
      have hplaced13 := hplaced.trans hplaced3
      have hnl3 : NoLinks os3 (os3.start p) p.comps := by
        intro ds hds target hlink
        rw [hplaced13.start p, hplaced13.view] at hlink
        split at hlink
        · cases hlink
        · exact hnl1 ds hds target hlink
      obtain ⟨hres3, hv, -⟩ := lookup_eq_ok hlook
      have hl : l = os.place p := by
        rw [← hmade.place p, ← hplaced13.place p]
        exact (resolve_plain hnl3 hres3).1
      subst hl
      rw [hplaced13.self, Option.some.injEq] at hv
      subst hv
      refine ⟨rfl, Arrived.of_placed (hmade.mono fun k => Under.above) (hplaced13.trans hplaced4) habove ?_⟩
      exact fun mode hdir => absurd hdir (hnodir mode)

/-- The receiver gives a file the permission bits of its entry. -/
def Exact : Prop := ∀ mode, mode ≠ 0 → Rsdb.fileMode mode = mode → r.fileMode mode = mode

end Receiver

/-- Where an item goes, under its root. -/
def Item.target (root : Path) (item : Item) : Path := item.names.foldl Path.push root

/-- What is placed for an object: its contents and its permission bits. -/
def Obj.exact (obj : Obj) : Obj := Os.objWithMode (fileMode obj.mode) obj

/-- What arrives of it. -/
def Item.arrives (item : Item) : Obj := Obj.exact item.obj

/-- The reads that are sent for an item: its contents, if it is a file. -/
structure Item.ReadAs (item : Item) (reads : List Bytes) : Prop where
  sizes : ∀ c ∈ reads, 0 < c.length ∧ c.length ≤ defaultStreamChunkSize
  content : reads.flatten = item.content?.getD []

theorem Item.ReadAs.eq_nil {item : Item} {reads : List Bytes} (h : item.ReadAs reads) (hdir : item.content? = none) :
    reads = [] := by
  have hflat := h.content
  rw [hdir, Option.getD_none] at hflat
  rcases reads with _ | ⟨c, cs⟩
  · rfl
  · have hpos := (h.sizes c List.mem_cons_self).1
    rw [List.flatten_cons, List.append_eq_nil_iff] at hflat
    rw [hflat.1] at hpos
    cases hpos

theorem fileMode_fileMode (mode : ℕ) : fileMode (fileMode mode) = fileMode mode := by
  rw [fileMode, fileMode, Nat.and_assoc, Nat.and_self]

namespace Receiver

open Os

variable (r : Receiver)

theorem receiveEntry_ends (hexact : r.Exact) {rootPaths : List Path} {item : Item} {root : Path}
    (hroot : rootPaths[item.entry.rootIndex]? = some root) (hplain : Obj.Plain item.obj)
    (htext : ∀ name ∈ item.names, isUtf8 name.1 = true) {reads : List Bytes} (hreads : item.ReadAs reads) (bytes : ℕ)
    (rest : Bytes) {os : Os} (hreg : Regular os (item.target root)) :
    Ends (fun out os' => out = (bytes + item.entry.size, rest) ∧ Arrived os os' (item.target root) item.arrives)
      (r.receiveEntry rootPaths item.entry bytes (chunksBytes r.requestId reads ++ rest)) os := by
  have hpath : resolveTransferEntryPath rootPaths item.entry = .ok (item.target root) :=
    resolveTransferEntryPath_eq_ok.mpr ⟨root, item.names, hroot, Item.relativeNames_entry htext, rfl⟩
  obtain ⟨rootIndex, path, names, obj⟩ := item
  rw [receiveEntry, hpath, Prog.ofExcept_ok, Prog.pure_bind]
  cases obj with
  | inr mode =>
    obtain rfl := hreads.eq_nil rfl
    refine wp_bind.mpr (wp_mono (fun _ os1 harrived => ?_)
      (r.receiveDirectory_ends (Item.entry ⟨rootIndex, path, names, .inr mode⟩) hplain hreg.noLinks))
    refine ⟨rfl, ?_⟩
    have hobj : Item.arrives ⟨rootIndex, path, names, .inr mode⟩ = .inr (Rsdb.fileMode mode &&& 0o7777) :=
      congrArg Sum.inr (fileMode_fileMode mode).symm
    rw [hobj]
    exact harrived
  | inl leaf =>
    cases leaf with
    | symlink target => exact hplain.elim
    | other mode => exact hplain.elim
    | file mode content =>
      have hcontent : reads.flatten = content := hreads.content
      refine wp_mono (fun out os1 ⟨hout, harrived⟩ => ⟨hout, ?_⟩)
        (r.receiveRegular_ends (Item.entry ⟨rootIndex, path, names, .inl (.file mode content)⟩) hplain
          hreads.sizes (by rw [hcontent]; rfl) bytes rest hreg)
      have hmode : r.fileMode (Rsdb.fileMode mode) = Rsdb.fileMode mode := hexact _ hplain (fileMode_fileMode mode)
      have hobj : Item.arrives ⟨rootIndex, path, names, .inl (.file mode content)⟩ =
          .inl (.file (r.fileMode (Rsdb.fileMode mode)) reads.flatten) := by
        rw [hmode, hcontent]
        rfl
      rw [hobj]
      exact harrived

end Receiver

/-! ### All entries -/

/-- The targets have their objects; what is above them are directories; the rest
is as it was, but for missing directories above a target. -/
structure Overlaid (targets : List (Path × Obj)) (os os' : Os) : Prop extends Os.SameProcess os os' where
  self : ∀ t ∈ targets, os'.view (os.place t.1) = some t.2
  above : ∀ t ∈ targets, ∀ k, Os.Under (os.start t.1) t.1.comps k → ∃ mode, os'.view k = some (.inr mode)
  other : ∀ k, (∀ t ∈ targets, k ≠ os.place t.1) → os'.view k = os.view k ∨
    (os.view k = none ∧ os'.view k = some (.inr (os.masked 0o777)) ∧
      ∃ t ∈ targets, Os.Under (os.start t.1) t.1.comps k)
  kept : ∀ k mode, os.view k = some (.inr mode) → ∃ mode', os'.view k = some (.inr mode')

theorem Overlaid.nil (os : Os) : Overlaid [] os os where
  toSameProcess := Os.SameProcess.refl os
  self := by simp
  above := by simp
  other _ _ := Or.inl rfl
  kept _ mode h := ⟨mode, h⟩

theorem Receiver.Arrived.dir {os os' : Os} {p : Path} {obj : Obj} (h : Receiver.Arrived os os' p obj) {k : Loc}
    {mode : ℕ} (hk : os.view k = some (.inr mode)) : ∃ mode', os'.view k = some (.inr mode') := by
  by_cases heq : k = os.place p
  · subst heq
    obtain ⟨m, rfl⟩ := Sum.isRight_iff.mp (h.kept mode hk)
    exact ⟨m, h.self⟩
  · rcases h.other k heq with hsame | ⟨hnone, -, -⟩
    · exact ⟨mode, by rw [hsame, hk]⟩
    · rw [hk] at hnone
      cases hnone

/-- One more target, at another place than the others. -/
theorem Overlaid.cons {p : Path} {obj : Obj} {targets : List (Path × Obj)} {os os1 os' : Os}
    (h : Receiver.Arrived os os1 p obj) (h' : Overlaid targets os1 os')
    (hne : ∀ t ∈ targets, os.place p ≠ os.place t.1) : Overlaid ((p, obj) :: targets) os os' where
  toSameProcess := h.toSameProcess.trans h'.toSameProcess
  self t ht := by
    rcases List.mem_cons.mp ht with rfl | ht
    · rcases h'.other (os.place p) (fun t ht => h.toSameProcess.place t.1 ▸ hne t ht) with heq | ⟨hnone, -, -⟩
      · rw [heq, h.self]
      · rw [h.self] at hnone
        cases hnone
    · rw [← h.toSameProcess.place]
      exact h'.self t ht
  above t ht k hk := by
    rcases List.mem_cons.mp ht with rfl | ht
    · obtain ⟨mode, hdir⟩ := h.above k hk
      exact h'.kept k mode hdir
    · exact h'.above t ht k (h.toSameProcess.start t.1 ▸ hk)
  other k hk := by
    obtain ⟨hp, htargets⟩ := List.forall_mem_cons.mp hk
    rcases h'.other k (fun t ht => h.toSameProcess.place t.1 ▸ htargets t ht) with heq | ⟨hnone, hdir, t, ht, hunder⟩
    · rw [heq]
      exact (h.other k hp).imp_right fun ⟨h1, h2, h3⟩ => ⟨h1, h2, _, List.mem_cons_self, h3⟩
    · rcases h.other k hp with hsame | ⟨-, hsome, -⟩
      · refine Or.inr ⟨hsame ▸ hnone, Os.masked_eq h.toSameProcess _ ▸ hdir, t, List.mem_cons_of_mem _ ht, ?_⟩
        exact h.toSameProcess.start t.1 ▸ hunder
      · rw [hsome] at hnone
        cases hnone
  kept k mode hk := by
    obtain ⟨m, hdir⟩ := h.dir hk
    exact h'.kept k m hdir

theorem Receiver.Arrived.regular {os os' : Os} {p q : Path} {item : Item} (hplain : Obj.Plain item.obj)
    (h : Receiver.Arrived os os' p item.arrives) (hq : Receiver.Regular os q) : Receiver.Regular os' q := by
  intro k hk leaf hleaf
  rw [h.toSameProcess.start] at hk
  by_cases heq : k = os.place p
  · subst heq
    rw [h.self, Option.some.injEq] at hleaf
    obtain ⟨rootIndex, path, names, obj⟩ := item
    rcases obj with (_ | _ | _) | _
    · cases hleaf
      exact ⟨_, _, rfl⟩
    · exact hplain.elim
    · exact hplain.elim
    · cases hleaf
  · rcases h.other k heq with hsame | ⟨-, hsome, -⟩
    · exact hq k hk leaf (hsame ▸ hleaf)
    · rw [hsome] at hleaf
      cases hleaf

/-- The targets of the items of a manifest. -/
def targetsOf (rootPaths : List Path) (items : List Item) : List (Path × Obj) :=
  items.map fun item => (item.target (rootPaths.getD item.rootIndex .empty), item.arrives)

/-- **The entries of a batch all arrive.** Each file takes the frames that were
sent for it and no others, and what comes after the last of them is left. -/
theorem Receiver.receiveEntries_ends (r : Receiver) (hexact : r.Exact) {rootPaths : List Path}
    (hfew : rootPaths.length ≤ 2 ^ 32) (rest : Bytes) :
    ∀ {items : List Item} {readss : List (List Bytes)}, List.Forall₂ Item.ReadAs items readss →
      (∀ item ∈ items, item.rootIndex < rootPaths.length ∧ Obj.Plain item.obj ∧
        ∀ name ∈ item.names, isUtf8 name.1 = true) → ∀ (n bytes : ℕ) {os : Os},
      (∀ t ∈ targetsOf rootPaths items, Receiver.Regular os t.1) →
      (targetsOf rootPaths items).Pairwise (fun t u => os.place t.1 ≠ os.place u.1) →
      Ends (fun out os' => out = (n + items.length, bytes + (items.map fun i => i.entry.size).sum, rest) ∧
          Overlaid (targetsOf rootPaths items) os os')
        (r.receiveEntries rootPaths (items.map Item.entry) n bytes
          (chunksBytes r.requestId readss.flatten ++ rest)) os
  | [], [], .nil, _, n, bytes, os, _, _ => ⟨rfl, Overlaid.nil os⟩
  | item :: items, reads :: readss, .cons hreads hrest, hitems, n, bytes, os, hreg, hne => by
    obtain ⟨⟨hindex, hplain, htext⟩, hitems⟩ := List.forall_mem_cons.mp hitems
    obtain ⟨hreg1, hregs⟩ := List.forall_mem_cons.mp hreg
    obtain ⟨hne1, hnes⟩ := List.pairwise_cons.mp hne
    have hroot : rootPaths[item.entry.rootIndex]? = some (rootPaths.getD item.rootIndex .empty) := by
      rw [Item.rootIndex_entry (by omega), List.getD_eq_getElem?_getD, List.getElem?_eq_getElem hindex, Option.getD_some]
    have hinput : chunksBytes r.requestId (reads :: readss).flatten ++ rest =
        chunksBytes r.requestId reads ++ (chunksBytes r.requestId readss.flatten ++ rest) := by
      rw [List.flatten_cons, chunksBytes_append, List.append_assoc]
    simp only [List.map_cons]
    rw [receiveEntries, hinput, Ends, wp_bind]
    refine wp_mono (fun out os1 ⟨hout, harrived⟩ => ?_)
      (r.receiveEntry_ends hexact hroot hplain htext hreads bytes _ hreg1)
    subst hout
    have hplaces : ∀ p, os1.place p = os.place p := harrived.toSameProcess.place
    refine wp_mono (fun out os' ⟨hout, hoverlaid⟩ => ?_)
      (receiveEntries_ends r hexact hfew rest hrest hitems (n + 1) (bytes + item.entry.size)
        (fun t ht => harrived.regular hplain (hregs t ht))
        (hnes.imp fun {t u} h => by rw [hplaces, hplaces]; exact h))
    refine ⟨?_, Overlaid.cons harrived hoverlaid hne1⟩
    rw [hout, List.length_cons, List.sum_cons]
    simp only [Prod.mk.injEq, and_true]
    omega

end Rsdb
