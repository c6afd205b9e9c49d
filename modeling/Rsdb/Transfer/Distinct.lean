/-
# Where the entries of a batch go

An entry is known by the index of its root and its relative path, which is its
names made texts and joined. Names that are no texts lose bytes there, and two of
them can become one: then two files are written to one path, the second over the
first. The names of the roots are compared as texts before anything is sent, but past
2^32 roots their indexes are those of the first ones again. All entries go to places of
their own exactly when there are no more roots than that and no two names of one
directory become the same text (`distinct_destinations_iff`).
-/
import Rsdb.Transfer.Push

namespace Rsdb

open Prog (run run_bind_ok)

/-! ### Names as texts -/

theorem relativeNames_entry (item : Item) : relativeNames item.entry.relativePath = some (item.names.map lossyName) := by
  have hpath : item.entry.relativePath = Path.joinSlash ((item.names.map lossyName).map Subtype.val) := by
    rw [List.map_map]
    rfl
  rw [hpath, relativeNames_joinSlash]

/-- Two names of one directory are different texts. -/
def LossyDistinct (t : Tree) : Prop :=
  ∀ l n m, (t.view (l ++ [n])).isSome = true → (t.view (l ++ [m])).isSome = true → utf8Lossy n.1 = utf8Lossy m.1 → n = m

/-- Then different places have different texts. -/
theorem LossyDistinct.injective {t : Tree} (h : LossyDistinct t) : ∀ {l k : Loc}, (t.view l).isSome = true →
    (t.view k).isSome = true → l.map lossyName = k.map lossyName → l = k := by
  intro l
  induction l using List.reverseRecOn with
  | nil =>
    intro k _ _ heq
    exact (List.map_eq_nil_iff.mp heq.symm).symm
  | append_singleton l n ih =>
    intro k hl hk heq
    rcases List.eq_nil_or_concat' k with rfl | ⟨k, m, rfl⟩
    · simp at heq
    · rw [List.map_append, List.map_append, List.map_singleton, List.map_singleton] at heq
      obtain ⟨hinit, hlast⟩ := List.append_inj' heq rfl
      obtain ⟨x, hx⟩ := Option.isSome_iff_exists.mp hl
      obtain ⟨y, hy⟩ := Option.isSome_iff_exists.mp hk
      obtain rfl := ih (Option.isSome_iff_exists.mpr (DirTree.exists_view_of_append hx))
        (Option.isSome_iff_exists.mpr (DirTree.exists_view_of_append hy)) hinit
      rw [h l n m hl hk (congrArg Subtype.val (List.singleton_injective hlast))]

/-! ### Manifests that are built -/

section

variable {F T : Type} (form : ManifestForm F T) (rootIndex : ℕ)

mutual

/-- What has been walked to its end has files and directories only. -/
theorem listable_of_appendManifestEntry : ∀ {t : Tree} {path relative : Path} {rows rows' : ManifestRows F T}, t.Ordered →
    appendManifestEntry form rootIndex t path relative rows = .ok rows' → ListableTree t
  | .leaf (.symlink _), _, _, _, _, _, h => nomatch h
  | .leaf (.other _), _, _, _, _, _, h => nomatch h
  | .leaf (.file mode content), _, _, _, _, _, _ => by
    intro l obj hv
    cases l with
    | nil =>
      cases hv
      trivial
    | cons n l => cases hv
  | .dir mode children, path, relative, rows, rows', hord, h => by
    rw [appendManifestEntry] at h
    obtain ⟨relativePath, -, h⟩ := ok_of_bind h
    have hchildren := listable_of_appendChildren (fun c hc => hord.mem hc) h
    intro l obj hv
    cases l with
    | nil =>
      cases hv
      trivial
    | cons n l =>
      rw [DirTree.view, DirTree.sub_dir_cons] at hv
      cases hchild : DirTree.child n children with
      | none =>
        rw [hchild] at hv
        cases hv
      | some u =>
        rw [hchild] at hv
        exact hchildren (n, u) (DirTree.mem_of_child hchild) l obj hv

theorem listable_of_appendChildren : ∀ {children : List (Name × Tree)} {path relative : Path} {rows rows' : ManifestRows F T},
    (∀ c ∈ children, c.2.Ordered) → appendChildren form rootIndex children path relative rows = .ok rows' →
      ∀ c ∈ children, ListableTree c.2
  | [], _, _, _, _, _, _ => fun c hc => nomatch hc
  | (name, child) :: children, path, relative, rows, rows', hord, h => by
    obtain ⟨hord₁, hord'⟩ := List.forall_mem_cons.mp hord
    rw [appendChildren] at h
    obtain ⟨rows₁, hentry, h⟩ := ok_of_bind h
    exact List.forall_mem_cons.mpr ⟨listable_of_appendManifestEntry hord₁ hentry, listable_of_appendChildren hord' h⟩

end

end

theorem name_of_transferSourceName {source : Source} {sourceName : Str} (h : transferSourceName source = .ok sourceName) :
    source.name?.isSome = true := by
  unfold transferSourceName at h
  unfold Source.name?
  cases hfile : source.path.fileName with
  | some name => rfl
  | none =>
    rw [hfile] at h
    cases hplace : source.place.getLast? with
    | some name => rfl
    | none =>
      rw [hplace] at h
      cases h

/-- All sources of a walk to the end can be listed. -/
theorem listed_of_appendSources {F T : Type} (form : ManifestForm F T) : ∀ {sources : List Source}
    {roots : List TransferRoot} {rows : ManifestRows F T} {result : List TransferRoot × ManifestRows F T},
    appendSources form sources roots rows = .ok result → ∀ s ∈ sources, s.Listed
  | [], _, _, _, _ => fun s hs => nomatch hs
  | source :: sources, roots, rows, result, h => by
    rw [appendSources] at h
    obtain ⟨kind, -, h⟩ := ok_of_bind h
    obtain ⟨sourceName, hname, h⟩ := ok_of_bind h
    obtain ⟨rows', hentry, h⟩ := ok_of_bind h
    exact List.forall_mem_cons.mpr ⟨⟨listable_of_appendManifestEntry form (asU32 roots.length) source.ordered hentry,
      name_of_transferSourceName hname⟩, listed_of_appendSources form h⟩

/-- A manifest that is built is that of its sources, and the names of its roots are accepted. -/
theorem manifest_of_build {texts : ManifestTexts} {sources : List Source} {manifest : BatchManifest}
    (h : buildBatchManifest texts sources = .ok manifest) :
    (∀ s ∈ sources, s.Listed) ∧ manifest = manifestOf sources ∧ texts.uniqueRootNames (sources.map Source.root) = .ok () := by
  have hbuild := h
  unfold buildBatchManifest at h
  obtain ⟨result, hsources, h⟩ := ok_of_bind h
  obtain ⟨_, hnames, -⟩ := ok_of_bind h
  have hlisted := listed_of_appendSources texts.form hsources
  have heq := appendSources_eq texts.form hlisted [] ⟨[], [], 0⟩
  rw [hsources] at heq
  obtain rfl := Except.ok.inj heq
  rw [List.nil_append] at hnames
  refine ⟨hlisted, ?_, hnames⟩
  rw [buildBatchManifest_eq texts hlisted hnames] at hbuild
  exact (Except.ok.inj hbuild).symm

/-- Accepted names are distinct. -/
theorem nodup_of_duplicateRoot : ∀ {roots seen : List TransferRoot}, duplicateRoot seen roots = none →
    (roots.map TransferRoot.sourceName).Nodup ∧ ∀ r ∈ seen, ∀ r' ∈ roots, r.sourceName ≠ r'.sourceName
  | [], _, _ => ⟨List.nodup_nil, fun _ _ r' hr' => nomatch hr'⟩
  | root :: roots, seen, h => by
    unfold duplicateRoot at h
    split at h
    · cases h
    · rename_i hfind
      obtain ⟨hnodup, hseen⟩ := nodup_of_duplicateRoot h
      have hself := hseen root List.mem_cons_self
      refine ⟨?_, fun r hr r' hr' => ?_⟩
      · rw [List.map_cons, List.nodup_cons]
        refine ⟨fun hmem => ?_, hnodup⟩
        obtain ⟨r', hr', heq⟩ := List.mem_map.mp hmem
        exact hself r' hr' heq.symm
      · rcases List.mem_cons.mp hr' with rfl | hr'
        · simpa using List.find?_eq_none.mp hfind r hr
        · exact hseen r (List.mem_cons_of_mem root hr) r' hr'

/-! ### Root paths -/

/-- The root paths that one of the receivers resolves for some roots. -/
def ResolvedRoots (roots : List TransferRoot) (rootPaths : List Path) : Prop :=
  ∃ (destination : Str) (os os' : Os),
    run Os.step (Daemon.resolveBatchDestinationRoots destination roots) os = (.ok rootPaths, os') ∨
      run Os.step (Client.resolveLocalBatchRoots destination roots) os = (.ok rootPaths, os')

theorem rootPathsAt_cases {notDirectory : Str} {base : Path} {trailing : Bool} {isDir : Option Bool}
    {roots : List TransferRoot} {rootPaths : List Path} (h : rootPathsAt notDirectory base trailing isDir roots = .ok rootPaths) :
    rootPaths = roots.map (TransferRoot.under base) ∨ roots.length = 1 ∧ rootPaths = [base] := by
  unfold rootPathsAt at h
  split at h
  · obtain rfl := Except.ok.inj h
    split
    · exact Or.inl rfl
    · exact Or.inr ⟨rfl, rfl⟩
  · split at h
    · cases h
    · exact Or.inl (Except.ok.inj h).symm

theorem rootPaths_of_resolveRoots {statContext notDirectory : Str} {base : Path} {trailing : Bool}
    {roots : List TransferRoot} {rootPaths : List Path} {os os' : Os}
    (h : run Os.step (resolveRoots statContext notDirectory base trailing roots) os = (.ok rootPaths, os')) :
    rootPaths = roots.map (TransferRoot.under base) ∨ roots.length = 1 ∧ rootPaths = [base] := by
  obtain ⟨answer, t, -, hmatch⟩ := (run_bind_ok Os.step).mp h
  have hat : ∀ isDir, run Os.step (Prog.ofExcept (rootPathsAt notDirectory base trailing isDir roots)) t =
      (.ok rootPaths, os') → rootPaths = roots.map (TransferRoot.under base) ∨ roots.length = 1 ∧ rootPaths = [base] := by
    intro isDir hrun
    rw [Prog.run_ofExcept] at hrun
    exact rootPathsAt_cases (Prod.mk.inj hrun).1
  cases answer with
  | ok m => exact hat _ hmatch
  | error err =>
    dsimp only at hmatch
    split at hmatch
    · exact hat none hmatch
    · cases hmatch

/-- The roots go below the destination, or the only one is the destination. -/
theorem ResolvedRoots.cases {roots : List TransferRoot} {rootPaths : List Path} (h : ResolvedRoots roots rootPaths) :
    ∃ base : Path, rootPaths = roots.map (TransferRoot.under base) ∨ roots.length = 1 ∧ rootPaths = [base] := by
  obtain ⟨destination, os, os', hrun | hrun⟩ := h
  · unfold Daemon.resolveBatchDestinationRoots at hrun
    split at hrun
    · cases hrun
    · obtain ⟨u, t, -, hrest⟩ := (run_bind_ok Os.step).mp hrun
      dsimp only at hrest
      split at hrest
      · cases hrest
      · exact ⟨_, rootPaths_of_resolveRoots hrest⟩
  · unfold Client.resolveLocalBatchRoots at hrun
    split at hrun
    · cases hrun
    · obtain ⟨u, t, -, hrest⟩ := (run_bind_ok Os.step).mp hrun
      exact ⟨_, rootPaths_of_resolveRoots hrest⟩

/-! ### Distinct destinations -/

/-- No two entries have the same root and relative path, and no two are written
to the same path. -/
structure DistinctDestinations (manifest : BatchManifest) : Prop where
  keys : (manifest.entries.map fun entry => (entry.rootIndex, entry.relativePath)).Nodup
  paths : ∀ rootPaths, ResolvedRoots manifest.roots rootPaths → manifest.entries.Pairwise fun entry entry' =>
    ∀ p p', resolveTransferEntryPath rootPaths entry = .ok p → resolveTransferEntryPath rootPaths entry' = .ok p' →
      p.comps ≠ p'.comps

section

variable {sources : List Source}

/-- An item is one place of one source. -/
theorem items_injective {item item' : Item} (h : item ∈ manifestItems sources) (h' : item' ∈ manifestItems sources)
    (hroot : item.rootIndex = item'.rootIndex) (hnames : item.names = item'.names) : item = item' :=
  List.inj_on_of_nodup_map (nodup_itemsFrom 0 sources) h h' (by rw [hroot, hnames])

/-- Past 2^32 sources two roots have the index 0. -/
theorem few_of_keys (h : (((manifestItems sources).map Item.entry).map fun entry =>
    (entry.rootIndex, entry.relativePath)).Nodup) : sources.length ≤ 2 ^ 32 := by
  by_contra hmany
  have hroot : ∀ (i : ℕ) (hi : i < sources.length), ∃ item ∈ manifestItems sources, item.rootIndex = i ∧ item.names = [] := by
    intro i hi
    have htop : sources[i].tree.view [] = some sources[i].tree.label := by rw [DirTree.view, DirTree.sub_nil]; rfl
    obtain ⟨item, hitem, hindex, hnames, -⟩ := Source.mem_items_of_view htop i
    exact ⟨item, mem_itemsFrom.mpr ⟨i, sources[i], List.getElem?_eq_getElem hi, by rwa [Nat.zero_add]⟩, hindex, hnames⟩
  obtain ⟨first, hfirst, hzero, hnames⟩ := hroot 0 (by omega)
  obtain ⟨other, hother, hwrapped, hnames'⟩ := hroot (2 ^ 32) (by omega)
  rw [List.map_map] at h
  have hsame := List.inj_on_of_nodup_map h hfirst hother (by
    have hkey : ∀ item : Item, ((fun entry : TransferEntry => (entry.rootIndex, entry.relativePath)) ∘ Item.entry) item =
        (asU32 item.rootIndex, Path.joinSlash (item.names.map fun name => utf8Lossy name.1)) := fun _ => rfl
    rw [hkey, hkey, hzero, hwrapped, hnames, hnames']
    decide)
  rw [hsame, hwrapped] at hzero
  cases hzero

/-- Where the texts of siblings differ, an item is known by its root and its texts. -/
theorem items_lossy_injective (hdistinct : ∀ source ∈ sources, LossyDistinct source.tree) {item item' : Item}
    (h : item ∈ manifestItems sources) (h' : item' ∈ manifestItems sources) (hroot : item.rootIndex = item'.rootIndex)
    (hnames : item.names.map lossyName = item'.names.map lossyName) : item = item' := by
  obtain ⟨source, hs, hview⟩ := source_of_item h
  obtain ⟨source', hs', hview'⟩ := source_of_item h'
  rw [← hroot, hs] at hs'
  obtain rfl := Option.some.inj hs'
  refine items_injective h h' hroot ?_
  exact (hdistinct source (List.mem_of_getElem? hs)).injective (Option.isSome_iff_exists.mpr ⟨_, hview⟩)
    (Option.isSome_iff_exists.mpr ⟨_, hview'⟩) hnames

/-- The root path of a source is its name below the destination. -/
theorem comps_under {source : Source} {name : Name} (hname : source.name? = some name) (base : Path) :
    (source.root.under base).comps = base.comps ++ [.normal (lossyName name)] := by
  refine (TransferRoot.under_of_name base ?_).2
  have hroot : source.root.sourceName = Path.joinSlash ([lossyName name].map Subtype.val) := by
    rw [Source.root, hname]
    rfl
  rw [hroot, Path.ofStr_joinSlash]

/-- The components an entry is resolved to. -/
theorem comps_of_resolve {rootPaths : List Path} {item : Item} {p : Path}
    (h : resolveTransferEntryPath rootPaths item.entry = .ok p) :
    ∃ root, rootPaths[item.entry.rootIndex]? = some root ∧
      p.comps = root.comps ++ (item.names.map lossyName).map .normal := by
  obtain ⟨root, names, hroot, hnames, rfl⟩ := resolveTransferEntryPath_eq_ok.mp h
  rw [relativeNames_entry] at hnames
  obtain rfl := Option.some.inj hnames
  exact ⟨root, hroot, (Path.comps_push _ root).2⟩

/-- Items that are resolved to the same path have the same root and the same texts. -/
theorem same_of_resolve (hfew : sources.length ≤ 2 ^ 32) (hlisted : ∀ s ∈ sources, s.Listed)
    (hnodup : ((sources.map Source.root).map TransferRoot.sourceName).Nodup) {rootPaths : List Path}
    (hroots : ResolvedRoots (sources.map Source.root) rootPaths) {item item' : Item} (h : item ∈ manifestItems sources)
    (h' : item' ∈ manifestItems sources) {p p' : Path} (hp : resolveTransferEntryPath rootPaths item.entry = .ok p)
    (hp' : resolveTransferEntryPath rootPaths item'.entry = .ok p') (heq : p.comps = p'.comps) :
    item.rootIndex = item'.rootIndex ∧ item.names.map lossyName = item'.names.map lossyName := by
  have hnormal : Function.Injective (List.map Comp.normal) := List.map_injective_iff.mpr fun a b hab => Comp.normal.inj hab
  obtain ⟨root, hroot, hcomps⟩ := comps_of_resolve hp
  obtain ⟨root', hroot', hcomps'⟩ := comps_of_resolve hp'
  rw [rootIndex_of_item hfew h] at hroot
  rw [rootIndex_of_item hfew h'] at hroot'
  rw [hcomps, hcomps'] at heq
  obtain ⟨base, rfl | ⟨-, rfl⟩⟩ := hroots.cases
  · obtain ⟨source, hs, -⟩ := source_of_item h
    obtain ⟨source', hs', -⟩ := source_of_item h'
    obtain ⟨name, hname⟩ := Option.isSome_iff_exists.mp (hlisted source (List.mem_of_getElem? hs)).named
    obtain ⟨name', hname'⟩ := Option.isSome_iff_exists.mp (hlisted source' (List.mem_of_getElem? hs')).named
    rw [List.getElem?_map, List.getElem?_map, hs, Option.map_some, Option.map_some, Option.some.injEq] at hroot
    rw [List.getElem?_map, List.getElem?_map, hs', Option.map_some, Option.map_some, Option.some.injEq] at hroot'
    rw [← hroot, ← hroot', comps_under hname, comps_under hname', List.append_assoc, List.append_assoc] at heq
    obtain ⟨hfirst, hrest⟩ := List.cons.inj (List.append_cancel_left heq)
    refine ⟨?_, hnormal hrest⟩
    have htext : source.root.sourceName = source'.root.sourceName := by
      rw [Source.root, Source.root, hname, hname']
      exact congrArg Subtype.val (Comp.normal.inj hfirst)
    have hlen : item.rootIndex < ((sources.map Source.root).map TransferRoot.sourceName).length := by
      simpa using (List.getElem?_eq_some_iff.mp hs).1
    refine (List.getElem?_inj hlen hnodup).mp ?_
    simp [hs, hs', htext]
  · have hzero : ∀ {i : ℕ} {r : Path}, [base][i]? = some r → i = 0 ∧ r = base := by
      intro i r hr
      cases i with
      | zero => exact ⟨rfl, (Option.some.inj hr).symm⟩
      | succ i => cases hr
    obtain ⟨hi, rfl⟩ := hzero hroot
    obtain ⟨hi', rfl⟩ := hzero hroot'
    exact ⟨hi.trans hi'.symm, hnormal (List.append_cancel_left heq)⟩

end

/-- **No two files share a destination** exactly when there are no more than 2^32 sources
and in no directory of them two names become the same text. -/
theorem distinct_destinations_iff {sources : List Source} {manifest : BatchManifest}
    (hbuild : Client.buildLocalBatchManifest sources = .ok manifest ∨
      Daemon.buildBatchManifestFromSources sources = .ok manifest) :
    DistinctDestinations manifest ↔ sources.length ≤ 2 ^ 32 ∧ ∀ source ∈ sources, LossyDistinct source.tree := by
  obtain ⟨hlisted, rfl, hnodup⟩ : (∀ s ∈ sources, s.Listed) ∧ manifest = manifestOf sources ∧
      ((sources.map Source.root).map TransferRoot.sourceName).Nodup := by
    rcases hbuild with h | h
    · obtain ⟨hlisted, hmanifest, hunique⟩ := manifest_of_build h
      refine ⟨hlisted, hmanifest, (@nodup_of_duplicateRoot _ [] ?_).1⟩
      change Client.ensureUniqueRootNames _ = _ at hunique
      unfold Client.ensureUniqueRootNames at hunique
      split at hunique
      · assumption
      · cases hunique
    · obtain ⟨hlisted, hmanifest, hunique⟩ := manifest_of_build h
      refine ⟨hlisted, hmanifest, (@nodup_of_duplicateRoot _ [] ?_).1⟩
      change Daemon.ensureUniqueRootNames _ = _ at hunique
      unfold Daemon.ensureUniqueRootNames at hunique
      split at hunique
      · assumption
      · cases hunique
  have hitems : (manifestItems sources).Nodup := List.Nodup.of_map _ (nodup_itemsFrom 0 sources)
  constructor
  · rintro ⟨hkeys, -⟩
    refine ⟨few_of_keys hkeys, fun source hsource l n m hn hm hlossy => ?_⟩
    obtain ⟨i, hi⟩ := List.getElem?_of_mem hsource
    obtain ⟨x, hx⟩ := Option.isSome_iff_exists.mp hn
    obtain ⟨y, hy⟩ := Option.isSome_iff_exists.mp hm
    obtain ⟨item, hitem, hroot, hnames, -⟩ := Source.mem_items_of_view hx i
    obtain ⟨item', hitem', hroot', hnames', -⟩ := Source.mem_items_of_view hy i
    have hmem : item ∈ manifestItems sources := mem_itemsFrom.mpr ⟨i, source, hi, by rwa [Nat.zero_add]⟩
    have hmem' : item' ∈ manifestItems sources := mem_itemsFrom.mpr ⟨i, source, hi, by rwa [Nat.zero_add]⟩
    rw [manifestOf, List.map_map] at hkeys
    have hsame := List.inj_on_of_nodup_map hkeys hmem hmem'
      (by simp [Item.entry, Item.entryAt, hroot, hroot', hnames, hnames', hlossy])
    rw [hsame, hnames'] at hnames
    exact (List.singleton_injective (List.append_cancel_left hnames)).symm
  · rintro ⟨hfew, hdistinct⟩
    refine ⟨?_, fun rootPaths hroots => ?_⟩
    · rw [manifestOf, List.map_map]
      refine List.Nodup.map_on (fun item hitem item' hitem' heq => ?_) hitems
      obtain ⟨hroot, hpath⟩ := Prod.mk.inj heq
      rw [rootIndex_of_item hfew hitem, rootIndex_of_item hfew hitem'] at hroot
      have hnames := congrArg relativeNames hpath
      rw [relativeNames_entry, relativeNames_entry] at hnames
      exact items_lossy_injective hdistinct hitem hitem' hroot (Option.some.inj hnames)
    · rw [manifestOf, List.pairwise_map]
      refine hitems.imp_of_mem fun {item item'} hitem hitem' hne p p' hp hp' heq => hne ?_
      obtain ⟨hroot, hnames⟩ := same_of_resolve hfew hlisted hnodup hroots hitem hitem' hp hp' heq
      exact items_lossy_injective hdistinct hitem hitem' hroot hnames

/-- A directory with two files whose names are one byte each, and no texts. -/
def twoBytes : Source where
  path := Path.ofStr (str "d")
  place := []
  tree := .dir 0o755 [(⟨[0xFE], by decide⟩, .leaf (.file 0o644 (str "a"))),
    (⟨[0xFF], by decide⟩, .leaf (.file 0o644 (str "b")))]
  ordered := .ofDir _ _ (by simp [DirTree.NamesOrdered]; decide) fun c hc => by
    rcases List.mem_cons.mp hc with rfl | hc
    · exact .ofLeaf _
    · rw [List.mem_singleton.mp hc]
      exact .ofLeaf _

/-- Both files go to U+FFFD. -/
theorem shared_destination :
    Client.buildLocalBatchManifest [twoBytes] = .ok (manifestOf [twoBytes]) ∧
      Daemon.buildBatchManifestFromSources [twoBytes] = .ok (manifestOf [twoBytes]) ∧
      ¬ DistinctDestinations (manifestOf [twoBytes]) := by
  refine ⟨rfl, rfl, fun h => ?_⟩
  have hkeys := h.keys
  revert hkeys
  decide

theorem distinct_destinations_iff_directory :
    Client.buildLocalBatchManifest [pushedDirectory] = .ok (manifestOf [pushedDirectory]) ∧
      (DistinctDestinations (manifestOf [pushedDirectory]) ↔
        [pushedDirectory].length ≤ 2 ^ 32 ∧ ∀ source ∈ [pushedDirectory], LossyDistinct source.tree) :=
  ⟨rfl, distinct_destinations_iff (Or.inl rfl)⟩

end Rsdb
