/-
# A batch stays below its roots

The entries of a batch name paths below its root paths, and their text is checked. What
the paths lead to is another matter: a link on the way may lead anywhere. Where the
root paths are names of one directory, and there is no link at these names or below
them, no manifest and no stream gets a receiver out of there
(`batch_stays_below_roots`): in every state on the way, also where a receiver is
interrupted, everything else in the filesystem is as it was.
-/
import Rsdb.Client.RemoteRoots
import Rsdb.Os.Confined
import Rsdb.Transfer.Push
import Rsdb.Transfer.ReceivedBelow

namespace Rsdb

open Os (Leads below Area Confined)
open Prog (Throughout Reaches throughout_call throughout_bind throughout_mono run run_bind_ok)

/-! ### Calls under an invariant -/

section

variable {I : Os → Prop} {os : Os}

/-- A call, and what its answer leads to. -/
theorem throughout_ask {α : Type} {c : Call} {f : c.Answer → Act α} {P : α → Os → Prop} (hI : I os)
    (h : Throughout Os.step I P (f (Os.step c os).1) (Os.step c os).2) :
    Throughout Os.step I P (Prog.ask c >>= f) os := ⟨hI, h⟩

theorem throughout_ofExcept {α : Type} (hI : I os) (r : Except AnyhowError α) :
    Throughout Os.step I (fun a _ => r = .ok a) (.ofExcept r : Act α) os := by
  cases r with
  | ok a => exact ⟨hI, rfl⟩
  | error err => exact hI

theorem throughout_ioContext {α : Type} (hI : I os) (context : Str) (result : Except IoError α) :
    Throughout Os.step I (fun a _ => result = .ok a) (Act.ioContext context result) os := by
  cases result with
  | ok a => exact ⟨hI, rfl⟩
  | error err => exact hI

theorem throughout_ioWrite (hI : I os) (r : Receiver) (path : Path) (result : Except IoError Unit) :
    Throughout Os.step I (fun _ _ => True) (r.ioWrite path result) os := by
  unfold Receiver.ioWrite
  split
  · cases result with
    | ok u => exact ⟨hI, trivial⟩
    | error err => exact hI
  · exact throughout_mono (fun _ _ _ _ => trivial) (throughout_ioContext hI _ result)

theorem throughout_okIfDir (hI : I os) (p : Path) (err : IoError) :
    Throughout Os.step I (fun _ _ => True) (Act.okIfDir p err) os := by
  have hstat : (Os.step (.stat p) os).2 = os := by rw [Os.step_stat]
  refine throughout_ask hI ?_
  rw [hstat]
  cases (Os.step (.stat p) os).1 with
  | error e => exact ⟨hI, trivial⟩
  | ok m =>
    show Throughout Os.step I _ (if m.isDir then _ else _) os
    split <;> exact ⟨hI, trivial⟩

/-- A directory whose parents are made only where it could not be made for want of them. -/
theorem throughout_createDirs {p : Path} {parents : List Path} (hI : I os)
    (hmkdir : ∀ s, I s → I (Os.step (.mkdir p) s).2)
    (hparents : ∀ s, I s → ¬ (s.mkdir p = .error .notFound) ∨
      Throughout Os.step I (fun _ _ => True) (Act.createDirs parents) s) :
    Throughout Os.step I (fun _ _ => True) (Act.createDirs (p :: parents)) os := by
  have hmade := hmkdir os hI
  refine throughout_ask hI ?_
  cases hmkdir' : os.mkdir p with
  | ok after =>
    have hstep : Os.step (.mkdir p) os = (.ok (), after) := by rw [Os.step, hmkdir']; rfl
    rw [hstep] at hmade ⊢
    exact ⟨hmade, trivial⟩
  | error e =>
    have hstep : Os.step (.mkdir p) os = (.error e.toError, os) := by rw [Os.step, hmkdir']; rfl
    rw [hstep]
    show Throughout Os.step I _ (if e.toError.kind ≠ .notFound then _ else _) os
    split
    · exact throughout_okIfDir hI p _
    split
    · exact ⟨hI, trivial⟩
    rename_i hkind _
    rcases hparents os hI with hno | hall
    · have hnotFound : e = .notFound := not_not.mp hkind
      exact absurd (hnotFound ▸ hmkdir') hno
    refine throughout_bind (throughout_mono (fun made s hs _ => ?_) hall)
    cases made with
    | error err => exact ⟨hs, trivial⟩
    | ok u =>
      refine throughout_ask hs ?_
      have hagain := hmkdir s hs
      cases (Os.step (.mkdir p) s).1 with
      | ok u => exact ⟨hagain, trivial⟩
      | error err => exact throughout_okIfDir hagain p err

end

/-! ### Below the roots -/

section

variable {os : Os} {base : Path} {dir : Loc} {names : List Name} {n : ℕ}

theorem area_of_prefix {x : Name} (hx : x ∈ names) {rest pre : List Name} (hne : pre ≠ []) (hpre : pre <+: x :: rest) :
    Area dir names (dir ++ pre) := by
  rcases List.prefix_cons_iff.mp hpre with rfl | ⟨t, rfl, -⟩
  · exact absurd rfl hne
  · exact Os.area_below hx t

/-- What is found at a path below the roots is there. -/
theorem Os.Confined.area_of_resolve {s : Os} (hc : Confined (Area dir names) n os s) (hleads : Leads os base dir)
    {x : Name} (hx : x ∈ names) {rest : List Name} {follow : Bool} {f : Os.Found}
    (hf : s.resolve follow (below base (x :: rest)) = .ok f) : Area dir names f.loc := by
  rw [hc.loc_below hleads (by simp) (fun pre hne hpre => area_of_prefix hx hne hpre) hf]
  exact Os.area_below hx rest

/-- Nothing is made outside, not even the directories above. -/
theorem throughout_createDirAll (hleads : Leads os base dir) {x : Name} (hx : x ∈ names) (rest : List Name) :
    ∀ {s : Os}, Confined (Area dir names) n os s →
      Throughout Os.step (Confined (Area dir names) n os) (fun _ _ => True) (Act.createDirAll (below base (x :: rest))) s := by
  have hmkdir : ∀ (rest : List Name) (s : Os), Confined (Area dir names) n os s →
      Confined (Area dir names) n os (Os.step (.mkdir (below base (x :: rest))) s).2 := fun rest s hc =>
    Os.confined_mkdir hc fun f hf => Or.inl (hc.area_of_resolve hleads hx hf)
  induction rest using List.reverseRecOn with
  | nil =>
    intro s hc
    obtain ⟨parent, hparent, -⟩ := Os.parent_below_singleton base x
    rw [Act.createDirAll, Path.ancestors_of_parent hparent]
    refine throughout_createDirs hc (hmkdir []) fun t ht => Or.inl fun hnone => ?_
    -- the directory it is to be made in is there
    refine ht.resolve_child hleads false (Os.area_below hx []) ?_
    unfold Os.mkdir at hnone
    split at hnone
    · rename_i e he
      rw [he, Except.error.inj hnone]
    · cases hnone
    · split at hnone <;> cases hnone
  | append_singleton rest y ih =>
    intro s hc
    have hparent : (below base (x :: (rest ++ [y]))).parent = some (below base (x :: rest)) :=
      Os.parent_below base (List.cons_ne_nil x rest) y
    rw [Act.createDirAll, Path.ancestors_of_parent hparent]
    exact throughout_createDirs hc (hmkdir (rest ++ [y])) fun t ht => Or.inr (ih ht)

/-- The directory that the roots are in is there. -/
theorem throughout_createDirAll_base (hleads : Leads os base dir) {x : Name} (hx : x ∈ names) {p : Path}
    (habs : p.abs = base.abs) (hcomps : p.comps = base.comps) (hdot : p.dot = false) (hemp : p.isEmpty = false) {s : Os}
    (hc : Confined (Area dir names) n os s) :
    Throughout Os.step (Confined (Area dir names) n os) (fun _ _ => True) (Act.createDirAll p) s := by
  have hthere : ∀ {t : Os}, Confined (Area dir names) n os t → ¬ Os.Absent (t.resolve false p) := fun ht =>
    ht.not_absent hleads (Os.area_below hx []) habs hcomps hdot hemp
  obtain ⟨parents, hparents⟩ : ∃ parents, p.ancestors = p :: parents := by
    cases hparent : p.parent with
    | none => exact ⟨[], by rw [Path.ancestors_of_root hparent, hemp, if_neg Bool.false_ne_true]⟩
    | some q => exact ⟨q.ancestors, Path.ancestors_of_parent hparent⟩
  rw [Act.createDirAll, hparents]
  refine throughout_createDirs hc (fun t ht => Os.confined_mkdir ht fun f hf => Or.inr ?_) fun t ht => Or.inl fun hnone => ?_
  · rw [← hf]
    exact hthere ht
  · refine hthere ht (Or.inl ?_)
    unfold Os.mkdir at hnone
    split at hnone
    · rename_i e he
      rw [he, Except.error.inj hnone]
    · cases hnone
    · split at hnone <;> cases hnone

namespace Receiver

variable (r : Receiver)

theorem throughout_createDirectory {p : Path} {s : Os}
    (h : Throughout Os.step (Confined (Area dir names) n os) (fun _ _ => True) (Act.createDirAll p) s) :
    Throughout Os.step (Confined (Area dir names) n os) (fun _ _ => True) (r.createDirectory p) s :=
  throughout_bind (throughout_mono (fun made _ ht _ =>
    throughout_mono (fun _ _ _ _ => trivial) (throughout_ioContext ht _ made)) h)

theorem throughout_createParents (hleads : Leads os base dir) {x : Name} (hx : x ∈ names) (rest : List Name) {s : Os}
    (hc : Confined (Area dir names) n os s) :
    Throughout Os.step (Confined (Area dir names) n os) (fun _ _ => True) (r.createParents (below base (x :: rest))) s := by
  rw [createParents]
  rcases List.eq_nil_or_concat rest with rfl | ⟨rest, y, rfl⟩
  · obtain ⟨parent, hparent, habs, hcomps, hdot⟩ := Os.parent_below_singleton base x
    rw [hparent]
    show Throughout _ _ _ (if parent.isEmpty then _ else _) s
    split
    · exact ⟨hc, trivial⟩
    · rename_i hemp
      exact r.throughout_createDirectory
        (throughout_createDirAll_base hleads hx habs hcomps hdot (Bool.eq_false_iff.mpr hemp) hc)
  · rw [List.concat_eq_append, ← List.cons_append, Os.parent_below base (List.cons_ne_nil x rest) y]
    show Throughout _ _ _ (if (below base (x :: rest)).isEmpty then _ else _) s
    split
    · exact ⟨hc, trivial⟩
    · exact r.throughout_createDirectory (throughout_createDirAll hleads hx rest hc)

theorem throughout_setPermissions (hleads : Leads os base dir) {x : Name} (hx : x ∈ names) (rest : List Name)
    (entryMode mode : ℕ) {s : Os} (hc : Confined (Area dir names) n os s) :
    Throughout Os.step (Confined (Area dir names) n os) (fun _ _ => True)
      (setPermissions (below base (x :: rest)) entryMode mode) s := by
  unfold setPermissions
  split
  · exact ⟨hc, trivial⟩
  · refine throughout_ask hc (throughout_mono (fun _ _ _ _ => trivial) (throughout_ioContext ?_ _ _))
    exact Os.confined_chmod hc mode fun f hf => hc.area_of_resolve hleads hx hf

/-- A file that the receiver has opened is filled. -/
theorem throughout_receiveFile (path : Path) {fd : ℕ} (hfd : n ≤ fd) : ∀ (fuel remaining bytes : ℕ) (input : Bytes) {s : Os},
    Confined (Area dir names) n os s →
      Throughout Os.step (Confined (Area dir names) n os) (fun _ _ => True)
        (r.receiveFile path fd fuel remaining bytes input) s
  | _, 0, _, _, _, hc => by
    unfold receiveFile
    exact ⟨hc, trivial⟩
  | 0, _ + 1, _, _, _, hc => hc
  | fuel + 1, remaining + 1, bytes, input, s, hc => by
    unfold receiveFile
    cases r.readFileStreamChunk input with
    | error err => exact hc
    | ok chunk =>
      obtain ⟨header, payload, input'⟩ := chunk
      simp only
      split
      · exact hc
      split
      · exact hc
      split
      · exact throughout_receiveFile path hfd fuel (remaining + 1) bytes input' hc
      refine throughout_ask hc (throughout_bind (throughout_mono (fun _ t ht _ => ?_)
        (throughout_ioWrite (Os.confined_write hc hfd payload) r path _)))
      exact throughout_receiveFile path hfd fuel _ _ input' ht

theorem throughout_receiveRegular (hleads : Leads os base dir) {x : Name} (hx : x ∈ names) (rest : List Name)
    (entry : TransferEntry) (bytes : ℕ) (input : Bytes) {s : Os} (hc : Confined (Area dir names) n os s) :
    Throughout Os.step (Confined (Area dir names) n os) (fun _ _ => True)
      (r.receiveRegular (below base (x :: rest)) entry bytes input) s := by
  unfold receiveRegular
  refine throughout_bind (throughout_mono (fun _ t ht _ => ?_) (r.throughout_createParents hleads hx rest hc))
  obtain ⟨hopened, hfd⟩ := Os.confined_openWrite ht (normalizeMode entry.mode) fun f hf => ht.area_of_resolve hleads hx hf
  refine throughout_ask ht (throughout_bind (throughout_mono (fun fd t ht hanswer => ?_)
    (throughout_ioContext hopened _ _)))
  refine throughout_bind (throughout_mono (fun filled t ht _ => ?_)
    (r.throughout_receiveFile _ (hfd fd hanswer) input.length entry.size bytes input ht))
  obtain ⟨bytes', input'⟩ := filled
  exact throughout_bind (throughout_mono (fun _ _ ht _ => ⟨ht, trivial⟩)
    (throughout_setPermissions hleads hx rest entry.mode _ ht))

theorem throughout_receiveDirectory (hleads : Leads os base dir) {x : Name} (hx : x ∈ names) (rest : List Name)
    (entry : TransferEntry) {s : Os} (hc : Confined (Area dir names) n os s) :
    Throughout Os.step (Confined (Area dir names) n os) (fun _ _ => True)
      (r.receiveDirectory (below base (x :: rest)) entry) s := by
  refine throughout_bind (throughout_mono (fun _ t ht _ => ?_)
    (r.throughout_createDirectory (throughout_createDirAll hleads hx rest hc)))
  exact throughout_setPermissions hleads hx rest _ _ ht

/-- An entry's path is at a root or below one. -/
theorem exists_below {rootPaths : List Path} (hroots : ∀ p ∈ rootPaths, ∃ x ∈ names, p = below base [x])
    {entry : TransferEntry} {p : Path} (h : resolveTransferEntryPath rootPaths entry = .ok p) :
    ∃ x ∈ names, ∃ rest, p = below base (x :: rest) := by
  obtain ⟨root, rest, hroot, -, rfl⟩ := resolveTransferEntryPath_eq_ok.mp h
  obtain ⟨x, hx, rfl⟩ := hroots root (List.mem_of_getElem? hroot)
  refine ⟨x, hx, rest, ?_⟩
  have hpush : ∀ (rest pre : List Name), rest.foldl Path.push (below base pre) = below base (pre ++ rest) := by
    intro rest
    induction rest with
    | nil => exact fun pre => by rw [List.append_nil]; rfl
    | cons y rest ih =>
      intro pre
      have hone : (below base pre).push y = below base (pre ++ [y]) := by simp [below, Path.push]
      rw [List.foldl_cons, hone, ih, List.append_assoc]
      rfl
  exact hpush rest [x]

theorem throughout_receiveEntry (hleads : Leads os base dir) {rootPaths : List Path}
    (hroots : ∀ p ∈ rootPaths, ∃ x ∈ names, p = below base [x]) (entry : TransferEntry) (bytes : ℕ) (input : Bytes) {s : Os}
    (hc : Confined (Area dir names) n os s) :
    Throughout Os.step (Confined (Area dir names) n os) (fun _ _ => True) (r.receiveEntry rootPaths entry bytes input) s := by
  unfold receiveEntry
  refine throughout_bind (throughout_mono (fun p t ht hpath => ?_) (throughout_ofExcept hc _))
  obtain ⟨x, hx, rest, rfl⟩ := exists_below hroots hpath
  cases entry.kind with
  | directory =>
    exact throughout_bind (throughout_mono (fun _ _ ht _ => ⟨ht, trivial⟩)
      (r.throughout_receiveDirectory hleads hx rest entry ht))
  | file => exact r.throughout_receiveRegular hleads hx rest entry bytes input ht

theorem throughout_receiveEntries (hleads : Leads os base dir) {rootPaths : List Path}
    (hroots : ∀ p ∈ rootPaths, ∃ x ∈ names, p = below base [x]) : ∀ (entries : List TransferEntry) (done bytes : ℕ)
    (input : Bytes) {s : Os}, Confined (Area dir names) n os s →
      Throughout Os.step (Confined (Area dir names) n os) (fun _ _ => True)
        (r.receiveEntries rootPaths entries done bytes input) s
  | [], _, _, _, _, hc => ⟨hc, trivial⟩
  | entry :: entries, done, bytes, input, s, hc => by
    refine throughout_bind (throughout_mono (fun received t ht _ => ?_)
      (r.throughout_receiveEntry hleads hroots entry bytes input hc))
    obtain ⟨bytes', input'⟩ := received
    exact throughout_receiveEntries hleads hroots entries (done + 1) bytes' input' ht

theorem throughout_receiveBatch (hleads : Leads os base dir) {rootPaths : List Path}
    (hroots : ∀ p ∈ rootPaths, ∃ x ∈ names, p = below base [x]) (entries : List TransferEntry) (input : Bytes) {s : Os}
    (hc : Confined (Area dir names) n os s) :
    Throughout Os.step (Confined (Area dir names) n os) (fun _ _ => True) (r.receiveBatch rootPaths entries input) s := by
  unfold receiveBatch
  refine throughout_bind (throughout_mono (fun received t ht _ => ?_)
    (r.throughout_receiveEntries hleads hroots entries 0 0 input hc))
  obtain ⟨done, bytes, input'⟩ := received
  exact throughout_bind (throughout_mono (fun _ _ ht _ => ⟨ht, trivial⟩) (throughout_ofExcept ht _))

end Receiver

/-! ### The two handlers -/

/-- The root paths that are resolved are those for what is there. -/
theorem rootPathsIn_of_rootPathsAt {s : Os} {notDirectory destination : Str} {isDir : Option Bool}
    {roots : List TransferRoot} {rootPaths : List Path}
    (hdir : isDir = some true ↔ s.isDirAt (Path.ofStr destination) = true)
    (h : rootPathsAt notDirectory (Path.ofStr destination) (endsWithSlash destination) isDir roots = .ok rootPaths) :
    rootPaths = rootPathsIn s destination roots := by
  rcases roots with _ | ⟨root, _ | ⟨root', roots⟩⟩
  · simp only [rootPathsAt] at h
    split at h
    · cases h
    · exact (Except.ok.inj h).symm
  · simp only [rootPathsAt, hdir] at h
    exact (Except.ok.inj h).symm
  · simp only [rootPathsAt] at h
    split at h
    · cases h
    · exact (Except.ok.inj h).symm

theorem throughout_resolveRoots {I : Os → Prop} {s : Os} (hI : I s) (statContext notDirectory destination : Str)
    (roots : List TransferRoot) :
    Throughout Os.step I (fun rootPaths t => t = s ∧ rootPaths = rootPathsIn s destination roots)
      (resolveRoots statContext notDirectory (Path.ofStr destination) (endsWithSlash destination) roots) s := by
  have hat : ∀ isDir : Option Bool, (isDir = some true ↔ s.isDirAt (Path.ofStr destination) = true) →
      Throughout Os.step I (fun rootPaths t => t = s ∧ rootPaths = rootPathsIn s destination roots)
        (.ofExcept (rootPathsAt notDirectory (Path.ofStr destination) (endsWithSlash destination) isDir roots) : Act _) s := by
    intro isDir hdir
    cases h : rootPathsAt notDirectory (Path.ofStr destination) (endsWithSlash destination) isDir roots with
    | ok rootPaths => exact ⟨hI, rfl, rootPathsIn_of_rootPathsAt hdir h⟩
    | error err => exact hI
  refine throughout_ask hI ?_
  rw [Os.step_stat]
  cases hl : s.lookup true (Path.ofStr destination) with
  | error e =>
    have hno : s.isDirAt (Path.ofStr destination) = false := by simp [Os.isDirAt, hl]
    simp only [Except.map, Except.mapError]
    split
    · exact hat none (by simp [hno])
    · exact hI
  | ok found =>
    obtain ⟨l, obj⟩ := found
    simp only [Except.map, Except.mapError]
    refine hat _ ?_
    cases obj with
    | inr mode => simp [Os.isDirAt, hl, Os.metadata, Obj.kind, Metadata.isDir]
    | inl leaf => cases leaf <;> simp [Os.isDirAt, hl, Os.metadata, Obj.kind, Metadata.isDir]

/-- What the two resolvers do, with the checks before. -/
theorem throughout_checked {α : Type} {I : Os → Prop} {s : Os} (hI : I s) (check : Except AnyhowError Unit) {x : Act α}
    {P : α → Os → Prop} (h : Throughout Os.step I P x s) :
    Throughout Os.step I P (Prog.ofExcept check >>= fun _ => x) s := by
  cases check with
  | error err => exact hI
  | ok u => exact h

theorem throughout_resolveBatchDestinationRoots {I : Os → Prop} {s : Os} (hI : I s) (destination : Str)
    (roots : List TransferRoot) :
    Throughout Os.step I (fun rootPaths t => t = s ∧ rootPaths = rootPathsIn s destination roots)
      (Daemon.resolveBatchDestinationRoots destination roots) s := by
  unfold Daemon.resolveBatchDestinationRoots
  split
  · exact hI
  refine throughout_checked hI _ ?_
  dsimp only
  split
  · exact hI
  · exact throughout_resolveRoots hI _ _ destination roots

theorem throughout_resolveLocalBatchRoots {I : Os → Prop} {s : Os} (hI : I s) (destination : Str)
    (roots : List TransferRoot) :
    Throughout Os.step I (fun rootPaths t => t = s ∧ rootPaths = rootPathsIn s destination roots)
      (Client.resolveLocalBatchRoots destination roots) s := by
  unfold Client.resolveLocalBatchRoots
  split
  · exact hI
  · exact throughout_checked hI _ (throughout_resolveRoots hI _ _ destination roots)

theorem throughout_handlePushBatch (hleads : Leads os base dir) {destination : Str} {roots : List TransferRoot} {s : Os}
    (hroots : ∀ p ∈ rootPathsIn s destination roots, ∃ x ∈ names, p = below base [x])
    (hc : Confined (Area dir names) n os s) (requestId : UInt32) (entries : List TransferEntry) (input : Bytes) :
    Throughout Os.step (Confined (Area dir names) n os) (fun _ _ => True)
      (Daemon.handlePushBatch requestId destination roots entries input) s := by
  refine throughout_bind (throughout_mono (fun rootPaths t ht hresolved => ?_)
    (throughout_resolveBatchDestinationRoots hc destination roots))
  obtain ⟨-, rfl⟩ := hresolved
  refine throughout_bind (throughout_mono (fun received t ht _ => ?_)
    ((Daemon.pushReceiver requestId).throughout_receiveBatch hleads hroots entries input ht))
  obtain ⟨entriesWritten, bytesWritten, -⟩ := received
  exact ⟨ht, trivial⟩

theorem throughout_receiveLocalBatch (hleads : Leads os base dir) {destination : Str} {roots : List TransferRoot} {s : Os}
    (hroots : ∀ p ∈ rootPathsIn s destination roots, ∃ x ∈ names, p = below base [x])
    (hc : Confined (Area dir names) n os s) (entries : List TransferEntry) (input : Bytes) :
    Throughout Os.step (Confined (Area dir names) n os) (fun _ _ => True)
      (Client.receiveLocalBatch destination roots entries input) s := by
  refine throughout_bind (throughout_mono (fun rootPaths t ht hresolved => ?_)
    (throughout_resolveLocalBatchRoots hc destination roots))
  obtain ⟨-, rfl⟩ := hresolved
  exact Client.pullReceiver.throughout_receiveBatch hleads hroots entries input ht

end

/-- **A batch stays below its roots.** Where the roots of a batch are names of one
directory, however its path gets there, and there is no link at these names or below
them: for every manifest and every stream, honest or not and cut short anywhere, and
in every state on the way of either receiver, everything else in the filesystem is as
it was, and there still is no link there. -/
theorem batch_stays_below_roots (os : Os) {base : Path} {dir : Loc} {names : List Name} (hleads : Leads os base dir)
    (hfree : ∀ k target, Area dir names k → os.view k ≠ some (.inl (.symlink target))) {destination : Str}
    {roots : List TransferRoot} (hroots : ∀ p ∈ rootPathsIn os destination roots, ∃ x ∈ names, p = below base [x])
    (entries : List TransferEntry) (input : Bytes) :
    (∀ requestId t, Reaches Os.step (Daemon.handlePushBatch requestId destination roots entries input) os t →
      (∀ k, ¬ Area dir names k → t.view k = os.view k) ∧
        ∀ k target, Area dir names k → t.view k ≠ some (.inl (.symlink target))) ∧
    ∀ t, Reaches Os.step (Client.receiveLocalBatch destination roots entries input) os t →
      (∀ k, ¬ Area dir names k → t.view k = os.view k) ∧
        ∀ k target, Area dir names k → t.view k ≠ some (.inl (.symlink target)) := by
  have hstart := Confined.refl os hfree
  refine ⟨fun requestId t ht => ?_, fun t ht => ?_⟩
  · have hc := (throughout_handlePushBatch hleads hroots hstart requestId entries input).reaches ht
    exact ⟨hc.outside, hc.linkFree⟩
  · have hc := (throughout_receiveLocalBatch hleads hroots hstart entries input).reaches ht
    exact ⟨hc.outside, hc.linkFree⟩

/-- A name in a directory. -/
def guestName : Name := ⟨str "guest", by decide⟩

/-- A push to `/l` that is cut short in the middle of its file leaves all but `/d/guest`. -/
theorem batch_stays_below_roots_behind_link :
    let roots : List TransferRoot := [⟨str "guest", .file, 420⟩]
    let entries : List TransferEntry := [⟨0, [], .file, 420, 2⟩]
    (∀ k, ¬ Area [dirName] [guestName] k →
      (run Os.step (Daemon.handlePushBatch 1 (str "/l") roots entries []) linkedOs).2.view k = linkedOs.view k) ∧
    ∀ k, ¬ Area [dirName] [guestName] k →
      (run Os.step (Client.receiveLocalBatch (str "/l") roots entries []) linkedOs).2.view k = linkedOs.view k := by
  intro roots entries
  have hleads : Leads linkedOs (Path.ofStr (str "/l")) [dirName] :=
    Os.leads_of_lookup (show linkedOs.lookup true (Path.ofStr (str "/l")) = .ok ([dirName], .inr 0o755) by decide +kernel)
  have hroots : rootPathsIn linkedOs (str "/l") roots = [below (Path.ofStr (str "/l")) [guestName]] := by decide +kernel
  have hnothing : ∀ rest : Loc, linkedOs.view (dirName :: guestName :: rest) = none := fun _ => rfl
  have hfree : ∀ k target, Area [dirName] [guestName] k → linkedOs.view k ≠ some (.inl (.symlink target)) := by
    rintro k target ⟨x, hx, rest, rfl⟩ hlink
    obtain rfl := List.mem_singleton.mp hx
    cases (hnothing rest).symm.trans hlink
  obtain ⟨hdaemon, hclient⟩ := batch_stays_below_roots linkedOs hleads hfree
    (fun p hp => ⟨guestName, List.mem_singleton_self _, List.mem_singleton.mp (hroots ▸ hp)⟩) entries []
  exact ⟨(hdaemon 1 _ (Prog.reaches_run _ _)).1, (hclient _ (Prog.reaches_run _ _)).1⟩

end Rsdb
