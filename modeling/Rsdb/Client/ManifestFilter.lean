/-
# A manifest of some of its roots

A push that goes root by root takes the manifest of one root out of that of all of
them: `filter_local_batch_manifest` selects the sources and the roots by their
indexes, keeps the entries and the files of these roots, and gives them the numbers
that the roots have now.

`build_local_batch_manifest` is here with all that it returns, its sources and the
root of each file, and with a total that is a `u64` and wraps
(`LocalBatchManifest.build`, over the walk of the other modules); without that it is
`buildLocalBatchManifest` (`build_forget`). Below 2^32 roots an index says which root it is, and a selection is
what its sources alone would have given; past that two roots have one index, and a
selection has the entries of both (`filter_matches_build_iff`).
-/
import Mathlib.Data.List.AList
import Rsdb.Lib.Selection
import Rsdb.Transfer.Distinct

namespace Rsdb

namespace Client

/-! ### Building -/

/-- A file of the manifest: its root, where it is read from, and its size. -/
structure LocalBatchFile where
  rootIndex : ℕ
  path : Path
  size : ℕ
  deriving DecidableEq

/-- What `build_local_batch_manifest` returns. -/
structure LocalBatchManifest where
  sources : List Path
  roots : List TransferRoot
  entries : List TransferEntry
  files : List LocalBatchFile
  totalBytes : UInt64
  deriving DecidableEq

/-- The rows of a `LocalBatchManifest`. -/
def localForm : ManifestForm LocalBatchFile UInt64 where
  toManifestTexts := manifestTexts
  file := LocalBatchFile.mk
  count total size := total + UInt64.ofNat size

/-- `build_local_batch_manifest`, on the sources that have been found. -/
def LocalBatchManifest.build (sources : List Source) : Except AnyhowError LocalBatchManifest := do
  let (roots, rows) ← appendSources localForm sources [] ⟨[], [], 0⟩
  ensureUniqueRootNames roots
  .ok ⟨sources.map Source.path, roots, rows.entries, rows.files, rows.totalBytes⟩

/-! ### Filtering -/

/-- The new index of each root that is kept. -/
abbrev RemappedIndexes := AList fun _ : ℕ => ℕ

/-- The root indexes in turn, each with its place. -/
def selectRoots (manifest : LocalBatchManifest) : List (UInt32 × ℕ) → RemappedIndexes → List Path → List TransferRoot →
    Except AnyhowError (RemappedIndexes × List Path × List TransferRoot)
  | [], remapped, sources, roots => .ok (remapped, sources, roots)
  | (rootIndex, newIndex) :: rest, remapped, sources, roots =>
    match manifest.sources[rootIndex.toNat]?, manifest.roots[rootIndex.toNat]? with
    | some source, some root =>
      selectRoots manifest rest (remapped.insert rootIndex.toNat (asU32 newIndex)) (sources ++ [source]) (roots ++ [root])
    | _, _ => .error (.bail (str "invalid local batch manifest root index " ++ decimal rootIndex.toNat))

/-- An entry under its root's new number, if the root is kept. -/
def remapEntry (remapped : RemappedIndexes) (entry : TransferEntry) : Option TransferEntry :=
  (remapped.lookup entry.rootIndex).map fun mapped => { entry with rootIndex := mapped }

/-- A file under its root's new number, if the root is kept. -/
def remapFile (remapped : RemappedIndexes) (file : LocalBatchFile) : Option LocalBatchFile :=
  (remapped.lookup file.rootIndex).map fun mapped => { file with rootIndex := mapped }

/-- `files.iter().map(|file| file.size).sum()`. -/
def totalSize (files : List LocalBatchFile) : UInt64 := files.foldl (fun total file => total + UInt64.ofNat file.size) 0

/-- The part of a manifest that belongs to some of its roots, which are numbered anew. -/
def filterLocalBatchManifest (manifest : LocalBatchManifest) (rootIndexes : List UInt32) :
    Except AnyhowError LocalBatchManifest := do
  let (remapped, sources, roots) ← selectRoots manifest rootIndexes.zipIdx ∅ [] []
  let entries := manifest.entries.filterMap (remapEntry remapped)
  let files := manifest.files.filterMap (remapFile remapped)
  .ok ⟨sources, roots, entries, files, totalSize files⟩

/-! ### What is built -/

/-- The entries of a source, whose root has the index. -/
def entriesOf (source : Source) (rootIndex : ℕ) : List TransferEntry :=
  (source.items rootIndex).map (Item.entryAt rootIndex)

/-- The files of a source, whose root has the index. -/
def filesOf (source : Source) (rootIndex : ℕ) : List LocalBatchFile :=
  ((source.items rootIndex).filterMap Item.file?).map fun file => ⟨rootIndex, file.path, file.size⟩

/-- The total of some files. -/
def sizes (files : List LocalBatchFile) : UInt64 := UInt64.ofNat (files.map LocalBatchFile.size).sum

theorem sizes_append (a b : List LocalBatchFile) : sizes (a ++ b) = sizes a + sizes b := by
  rw [sizes, List.map_append, List.sum_append, UInt64.ofNat_add]
  rfl

theorem totalSize_eq (files : List LocalBatchFile) : totalSize files = sizes files := by
  have hfold : ∀ (files : List LocalBatchFile) (total : UInt64),
      files.foldl (fun total file => total + UInt64.ofNat file.size) total = total + sizes files := by
    intro files
    induction files with
    | nil => exact fun total => (UInt64.add_zero total).symm
    | cons file files ih =>
      intro total
      have hcons : sizes (file :: files) = UInt64.ofNat file.size + sizes files := by
        rw [sizes, List.map_cons, List.sum_cons, UInt64.ofNat_add]
        rfl
      rw [List.foldl_cons, ih, hcons, UInt64.add_assoc]
  rw [totalSize, hfold, UInt64.zero_add]

/-- The rows of a source under some index are its entries and its files. -/
theorem add_items (source : Source) (n index : ℕ) (rows : ManifestRows LocalBatchFile UInt64) :
    rows.add localForm index (source.items n) =
      ⟨rows.entries ++ entriesOf source index, rows.files ++ filesOf source index,
        rows.totalBytes + sizes (filesOf source index)⟩ := by
  have htotal : ∀ (places : List (Loc × Tree)) (total : UInt64),
      ((itemsUnder n source.path [] places).filterMap Item.content?).foldl
          (fun total content => total + UInt64.ofNat content.length) total =
        total + sizes (((itemsUnder index source.path [] places).filterMap Item.file?).map
          fun file => ⟨index, file.path, file.size⟩) := by
    intro places
    induction places with
    | nil => exact fun total => (UInt64.add_zero total).symm
    | cons p places ih =>
      intro total
      simp only [itemsUnder, List.map_cons, List.filterMap_cons, Item.file?, Item.content?] at ih ⊢
      rcases p.2.label with (⟨mode, content⟩ | target | mode) | mode
      · simp only [List.foldl_cons, ih, Option.map_some, List.map_cons, sizes, List.sum_cons, UInt64.ofNat_add,
          UInt64.add_assoc]
      all_goals exact ih total
  have hentries : (source.items n).map (Item.entryAt index) = entriesOf source index := by
    rw [entriesOf, Source.items, Source.items, itemsUnder, itemsUnder, List.map_map, List.map_map]
    rfl
  have hfiles : (source.items n).filterMap (Item.fileAt localForm index) = filesOf source index := by
    rw [filesOf, Source.items, Source.items, itemsUnder, itemsUnder, List.filterMap_map, List.filterMap_map,
      List.map_filterMap]
    refine List.filterMap_congr fun p _ => ?_
    simp only [Function.comp, Item.fileAt, Item.file?, Item.content?]
    rcases p.2.label with (⟨mode, content⟩ | target | mode) | mode <;> rfl
  rw [ManifestRows.add, hentries, hfiles]
  exact congrArg _ (htotal source.tree.preorder rows.totalBytes)

/-- The rows of all sources, each under the index its number wraps to. -/
theorem addFrom_localForm : ∀ (n : ℕ) (rows : ManifestRows LocalBatchFile UInt64) (sources : List Source),
    rows.addFrom localForm n sources =
      ⟨rows.entries ++ (sources.zipIdx n).flatMap fun p => entriesOf p.1 (asU32 p.2),
        rows.files ++ (sources.zipIdx n).flatMap fun p => filesOf p.1 (asU32 p.2),
        rows.totalBytes + sizes ((sources.zipIdx n).flatMap fun p => filesOf p.1 (asU32 p.2))⟩
  | n, rows, [] => by simp [ManifestRows.addFrom, sizes]
  | n, rows, source :: sources => by
    rw [ManifestRows.addFrom, addFrom_localForm, add_items]
    simp only [List.zipIdx_cons, List.flatMap_cons, List.append_assoc, sizes_append, UInt64.add_assoc]

theorem ensureUniqueRootNames_eq_ok {roots : List TransferRoot} :
    ensureUniqueRootNames roots = .ok () ↔ (roots.map TransferRoot.sourceName).Nodup := by
  unfold ensureUniqueRootNames
  constructor
  · intro h
    cases hdup : duplicateRoot [] roots with
    | none => exact (nodup_of_duplicateRoot hdup).1
    | some pair =>
      rw [hdup] at h
      cases h
  · intro h
    rw [duplicateRoot_eq_none h (by simp)]

/-- The manifest of some sources. -/
def LocalBatchManifest.of (sources : List Source) : LocalBatchManifest where
  sources := sources.map Source.path
  roots := sources.map Source.root
  entries := blocks (fun source i => entriesOf source (asU32 i)) sources
  files := blocks (fun source i => filesOf source (asU32 i)) sources
  totalBytes := sizes (blocks (fun source i => filesOf source (asU32 i)) sources)

/-- A manifest is built exactly of sources that can be listed and have different names. -/
theorem build_eq_ok {sources : List Source} {manifest : LocalBatchManifest} : LocalBatchManifest.build sources = .ok manifest ↔
    (∀ s ∈ sources, s.Listed) ∧ ((sources.map Source.root).map TransferRoot.sourceName).Nodup ∧
      .of sources = manifest := by
  have hbuild : (∀ s ∈ sources, s.Listed) → LocalBatchManifest.build sources =
      (ensureUniqueRootNames (sources.map Source.root)).map fun _ => .of sources := by
    intro h
    unfold LocalBatchManifest.build
    rw [appendSources_eq localForm h, addFrom_localForm]
    simp only [bind, Except.bind, List.nil_append, List.length_nil]
    cases ensureUniqueRootNames (sources.map Source.root) with
    | error err => rfl
    | ok u => simp [Except.map, LocalBatchManifest.of, blocks]
  constructor
  · intro h
    obtain ⟨result, hsources, -⟩ := ok_of_bind h
    have hlisted := listed_of_appendSources localForm hsources
    rw [hbuild hlisted] at h
    obtain ⟨_, hunique, hof⟩ := ok_of_map h
    exact ⟨hlisted, ensureUniqueRootNames_eq_ok.mp hunique, hof⟩
  · rintro ⟨hlisted, hnames, rfl⟩
    rw [hbuild hlisted, ensureUniqueRootNames_eq_ok.mpr hnames]
    rfl

/-! ### What is selected -/

/-- The new indexes, from the root indexes in turn. -/
def remap (remapped : RemappedIndexes) (rootIndexes : List (UInt32 × ℕ)) : RemappedIndexes :=
  rootIndexes.foldl (fun remapped p => remapped.insert p.1.toNat (asU32 p.2)) remapped

theorem selectRoots_eq (manifest : LocalBatchManifest) : ∀ (rootIndexes : List UInt32) (n : ℕ) (remapped : RemappedIndexes)
    (sources : List Path) (roots : List TransferRoot),
    (∀ i ∈ rootIndexes, i.toNat < manifest.sources.length ∧ i.toNat < manifest.roots.length) →
    selectRoots manifest (rootIndexes.zipIdx n) remapped sources roots =
      .ok (remap remapped (rootIndexes.zipIdx n), sources ++ select manifest.sources (rootIndexes.map UInt32.toNat),
        roots ++ select manifest.roots (rootIndexes.map UInt32.toNat))
  | [], n, remapped, sources, roots, _ => by simp [selectRoots, remap, select]
  | i :: rootIndexes, n, remapped, sources, roots, h => by
    obtain ⟨⟨hsource, hroot⟩, hrest⟩ := List.forall_mem_cons.mp h
    rw [List.zipIdx_cons, selectRoots, List.getElem?_eq_getElem hsource, List.getElem?_eq_getElem hroot]
    simp only
    rw [selectRoots_eq manifest rootIndexes (n + 1) _ _ _ hrest]
    simp [remap, select, List.getElem?_eq_getElem hsource, List.getElem?_eq_getElem hroot]

/-- An index that no root has is an error. -/
theorem selectRoots_error (manifest : LocalBatchManifest) : ∀ (rootIndexes : List UInt32) (n : ℕ) (remapped : RemappedIndexes)
    (sources : List Path) (roots : List TransferRoot), (∃ i ∈ rootIndexes, manifest.sources.length ≤ i.toNat) →
    ∃ err, selectRoots manifest (rootIndexes.zipIdx n) remapped sources roots = .error err
  | [], _, _, _, _, h => by
    obtain ⟨i, hi, -⟩ := h
    exact absurd hi List.not_mem_nil
  | i :: rootIndexes, n, remapped, sources, roots, h => by
    rw [List.zipIdx_cons, selectRoots]
    cases hsource : manifest.sources[i.toNat]? with
    | none => exact ⟨_, rfl⟩
    | some source =>
      cases manifest.roots[i.toNat]? with
      | none => exact ⟨_, rfl⟩
      | some root =>
        refine selectRoots_error manifest rootIndexes (n + 1) _ _ _ ?_
        obtain ⟨j, hj, hout⟩ := h
        rcases List.mem_cons.mp hj with rfl | hj
        · rw [List.getElem?_eq_none hout] at hsource
          cases hsource
        · exact ⟨j, hj, hout⟩

theorem lookup_remap : ∀ {rootIndexes : List UInt32} (n : ℕ) (remapped : RemappedIndexes), rootIndexes.Nodup →
    (∀ k i, rootIndexes[k]? = some i → (remap remapped (rootIndexes.zipIdx n)).lookup i.toNat = some (asU32 (n + k))) ∧
      ∀ j, (∀ i ∈ rootIndexes, i.toNat ≠ j) → (remap remapped (rootIndexes.zipIdx n)).lookup j = remapped.lookup j
  | [], n, remapped, _ => by simp [remap]
  | i :: rootIndexes, n, remapped, h => by
    obtain ⟨hi, hnodup⟩ := List.nodup_cons.mp h
    obtain ⟨hat, hother⟩ := lookup_remap (n + 1) (remapped.insert i.toNat (asU32 n)) hnodup
    have hcons : remap remapped ((i :: rootIndexes).zipIdx n) =
        remap (remapped.insert i.toNat (asU32 n)) (rootIndexes.zipIdx (n + 1)) := rfl
    have hne : ∀ j ∈ rootIndexes, j.toNat ≠ i.toNat := fun j hj heq => hi (UInt32.toNat_inj.mp heq ▸ hj)
    rw [hcons]
    constructor
    · intro k j hj
      cases k with
      | zero =>
        obtain rfl := Option.some.inj hj
        rw [hother i.toNat hne, AList.lookup_insert, Nat.add_zero]
      | succ k => rw [hat k j hj, Nat.add_right_comm, Nat.add_assoc]
    · intro j hj
      obtain ⟨hij, hrest⟩ := List.forall_mem_cons.mp hj
      rw [hother j hrest, AList.lookup_insert_ne (Ne.symm hij)]

/-! ### The same manifest, or not -/

theorem remap_entriesOf (remapped : RemappedIndexes) (source : Source) (i : ℕ) :
    (entriesOf source i).filterMap (remapEntry remapped) = (remapped.lookup i).elim [] (entriesOf source) := by
  have hentry : ∀ places : List (Loc × Tree), ((itemsUnder i source.path [] places).map (Item.entryAt i)).filterMap
      (remapEntry remapped) = (remapped.lookup i).elim []
        fun mapped => (itemsUnder mapped source.path [] places).map (Item.entryAt mapped) := by
    intro places
    induction places with
    | nil => cases remapped.lookup i <;> rfl
    | cons p places ih =>
      simp only [itemsUnder, List.map_cons, List.filterMap_cons] at ih ⊢
      rw [ih]
      cases hlookup : remapped.lookup i with
      | none => simp [remapEntry, Item.entryAt, hlookup]
      | some mapped => simp [remapEntry, Item.entryAt, hlookup, Item.kind, Item.content?]
  exact hentry source.tree.preorder

theorem filesOf_eq (source : Source) (i : ℕ) : filesOf source i =
    ((source.items 0).filterMap Item.file?).map fun file => ⟨i, file.path, file.size⟩ := by
  have hfiles : ∀ places : List (Loc × Tree), (itemsUnder i source.path [] places).filterMap Item.file? =
      (itemsUnder 0 source.path [] places).filterMap Item.file? := by
    intro places
    rw [itemsUnder, itemsUnder, List.filterMap_map, List.filterMap_map]
    rfl
  rw [filesOf, Source.items, hfiles]
  rfl

theorem remap_filesOf (remapped : RemappedIndexes) (source : Source) (i : ℕ) :
    (filesOf source i).filterMap (remapFile remapped) = (remapped.lookup i).elim [] (filesOf source) := by
  rw [filesOf_eq, List.filterMap_map]
  cases hlookup : remapped.lookup i with
  | none => simp [Function.comp_def, remapFile, hlookup]
  | some mapped =>
    rw [Option.elim_some, filesOf_eq, ← List.filterMap_eq_map]
    exact List.filterMap_congr fun file _ => by simp [remapFile, hlookup]

/-- Few enough blocks have the numbers of their places. -/
theorem blocks_asU32 {β : Type} (block : Source → ℕ → List β) {sources : List Source} (h : sources.length ≤ 2 ^ 32) :
    blocks (fun source i => block source (asU32 i)) sources = blocks block sources := by
  refine List.flatMap_congr fun p hp => ?_
  have hlt : p.2 < sources.length := (List.getElem?_eq_some_iff.mp (List.mem_zipIdx_iff_getElem?.mp hp)).1
  show block p.1 (asU32 p.2) = block p.1 p.2
  rw [asU32_of_lt (hlt.trans_le h)]

theorem increasing_toNat {rootIndexes : List UInt32} (h : rootIndexes.Pairwise (· < ·)) :
    (rootIndexes.map UInt32.toNat).Pairwise (· < ·) := h.map UInt32.toNat fun _ _ hlt => UInt32.lt_iff_toNat_lt.mp hlt

theorem positions_remap {rootIndexes : List UInt32} (hsorted : rootIndexes.Pairwise (· < ·))
    (hle : rootIndexes.length ≤ 2 ^ 32) :
    Positions (fun i => (remap ∅ rootIndexes.zipIdx).lookup i) (rootIndexes.map UInt32.toNat) := by
  have hnodup : rootIndexes.Nodup := hsorted.imp UInt32.ne_of_lt
  obtain ⟨hat, hother⟩ := lookup_remap 0 ∅ hnodup
  constructor
  · intro k i hi
    rw [List.getElem?_map, Option.map_eq_some_iff] at hi
    obtain ⟨j, hj, rfl⟩ := hi
    have hk : k < rootIndexes.length := (List.getElem?_eq_some_iff.mp hj).1
    rw [hat k j hj, Nat.zero_add, asU32_of_lt (by omega)]
  · intro i hi
    rw [hother i fun j hj heq => hi (heq ▸ List.mem_map_of_mem hj), AList.lookup_empty]

/-- A selection of few enough roots is what its sources alone give. -/
theorem filter_of {sources : List Source} (hle : sources.length ≤ 2 ^ 32) {rootIndexes : List UInt32}
    (hsorted : rootIndexes.Pairwise (· < ·)) (hlt : ∀ i ∈ rootIndexes, i.toNat < sources.length) :
    filterLocalBatchManifest (.of sources) rootIndexes = .ok (.of (select sources (rootIndexes.map UInt32.toNat))) := by
  have hincreasing := increasing_toNat hsorted
  have hlt' : ∀ i ∈ rootIndexes.map UInt32.toNat, i < sources.length := List.forall_mem_map.mpr hlt
  have hlen : rootIndexes.length ≤ sources.length := by
    have hle := length_le_of_increasing hincreasing hlt'
    rwa [List.length_map] at hle
  have hpositions := positions_remap hsorted (hlen.trans hle)
  have hselect : (select sources (rootIndexes.map UInt32.toNat)).length ≤ 2 ^ 32 :=
    (select_sublist hincreasing hlt').length_le.trans hle
  have hroots := selectRoots_eq (.of sources) rootIndexes 0 ∅ [] [] fun i hi => by
    simpa [LocalBatchManifest.of] using hlt i hi
  have hentries := renumber_blocks (remap_entriesOf (remap ∅ rootIndexes.zipIdx)) hincreasing hlt' hpositions
  have hfiles := renumber_blocks (remap_filesOf (remap ∅ rootIndexes.zipIdx)) hincreasing hlt' hpositions
  unfold filterLocalBatchManifest
  rw [hroots]
  simp only [bind, Except.bind, LocalBatchManifest.of, blocks_asU32 _ hle, blocks_asU32 _ hselect, hentries, hfiles,
    totalSize_eq, select_map, List.nil_append]

theorem entriesOf_ne_nil (source : Source) (i : ℕ) : entriesOf source i ≠ [] := by
  obtain ⟨item, hitem, -⟩ := source.mem_items_of_view (l := []) (i := i) (by rw [DirTree.view, DirTree.sub_nil]; rfl)
  exact List.ne_nil_of_mem (List.mem_map_of_mem hitem)

/-- Past 2^32 roots the first root is not the only one of its index. -/
theorem filter_zero_ne {sources : List Source} {source : Source} (h : 2 ^ 32 < (source :: sources).length) :
    filterLocalBatchManifest (.of (source :: sources)) [0] ≠ .ok (.of [source]) := by
  set remapped := remap ∅ [(0 : UInt32)].zipIdx with hremapped
  have hlookup : remapped.lookup 0 = some 0 := (lookup_remap 0 ∅ (List.nodup_singleton (0 : UInt32))).1 0 0 rfl
  have hroots := selectRoots_eq (.of (source :: sources)) [0] 0 ∅ [] [] fun i hi => by
    rw [List.mem_singleton.mp hi]
    simp [LocalBatchManifest.of]
  intro heq
  unfold filterLocalBatchManifest at heq
  rw [hroots] at heq
  have hentries : (LocalBatchManifest.of (source :: sources)).entries.filterMap (remapEntry remapped) =
      (LocalBatchManifest.of [source]).entries := congrArg LocalBatchManifest.entries (Except.ok.inj heq)
  have hall : (LocalBatchManifest.of (source :: sources)).entries.filterMap (remapEntry remapped) =
      entriesOf source 0 ++ (sources.zipIdx 1).flatMap fun p => (remapped.lookup (asU32 p.2)).elim [] (entriesOf p.1) := by
    have hfirst : remapped.lookup (asU32 0) = some 0 := hlookup
    have hblocks := filterMap_blocks (remap_entriesOf remapped) asU32 (source :: sources)
    rw [List.zipIdx_cons, List.flatMap_cons, hfirst, Option.elim_some] at hblocks
    exact hblocks
  have hone : (LocalBatchManifest.of [source]).entries = entriesOf source 0 := List.append_nil _
  rw [hall, hone] at hentries
  have hrest := List.flatMap_eq_nil_iff.mp (List.append_cancel_left (hentries.trans (List.append_nil _).symm))
  -- The root of number 2^32 has the index 0 as well.
  have hlast : 2 ^ 32 - 1 < sources.length := by
    rw [List.length_cons] at h
    omega
  have hmem : (sources[2 ^ 32 - 1], 1 + (2 ^ 32 - 1)) ∈ sources.zipIdx 1 :=
    List.mk_add_mem_zipIdx_iff_getElem?.mpr (List.getElem?_eq_getElem hlast)
  have hnil := hrest _ hmem
  have hindex : asU32 (1 + (2 ^ 32 - 1)) = 0 := by decide
  rw [hindex, hlookup, Option.elim_some] at hnil
  exact entriesOf_ne_nil _ _ hnil

/-- What filtering a manifest of the sources should do: a selection of its roots in
order is the manifest that the selected sources alone give, and an index that no
root has is an error. -/
def FilterMatchesBuild (sources : List Source) (manifest : LocalBatchManifest) : Prop :=
  (∀ rootIndexes : List UInt32, rootIndexes.Pairwise (· < ·) → (∀ i ∈ rootIndexes, i.toNat < manifest.roots.length) →
    ∃ selection, LocalBatchManifest.build (select sources (rootIndexes.map UInt32.toNat)) = .ok selection ∧
      filterLocalBatchManifest manifest rootIndexes = .ok selection) ∧
  ∀ rootIndexes : List UInt32, (∃ i ∈ rootIndexes, manifest.roots.length ≤ i.toNat) →
    ∃ err, filterLocalBatchManifest manifest rootIndexes = .error err

/-- Some sources of a manifest in their order make a manifest. -/
theorem build_sublist {sources some : List Source} (hsub : some.Sublist sources) {manifest : LocalBatchManifest}
    (h : LocalBatchManifest.build sources = .ok manifest) : LocalBatchManifest.build some = .ok (.of some) := by
  obtain ⟨hlisted, hnames, -⟩ := build_eq_ok.mp h
  exact build_eq_ok.mpr ⟨fun s hs => hlisted s (hsub.subset hs), hnames.sublist ((hsub.map _).map _), rfl⟩

theorem not_filterMatchesBuild {sources : List Source} {manifest : LocalBatchManifest}
    (h : LocalBatchManifest.build sources = .ok manifest) (hlong : 2 ^ 32 < sources.length) :
    ¬ FilterMatchesBuild sources manifest := by
  obtain ⟨-, -, rfl⟩ := build_eq_ok.mp h
  rintro ⟨hselect, -⟩
  cases sources with
  | nil => exact absurd hlong (Nat.not_lt_zero _)
  | cons source sources =>
    obtain ⟨selection, hbuild, hfilter⟩ := hselect [0] (List.pairwise_singleton _ _) fun i hi => by
      rw [List.mem_singleton.mp hi, LocalBatchManifest.of, List.length_map]
      exact Nat.succ_pos _
    have hone : LocalBatchManifest.build [source] = .ok (.of [source]) :=
      build_sublist ((List.nil_sublist sources).cons_cons source) h
    have hselected : select (source :: sources) ([(0 : UInt32)].map UInt32.toNat) = [source] := rfl
    rw [hselected, hone] at hbuild
    obtain rfl := Except.ok.inj hbuild
    exact filter_zero_ne hlong hfilter

/-- **A selection of the roots is the manifest of their sources alone, unless an
index says two roots.** With the local filesystem unchanged, for any sources of
which a manifest is built, this is so exactly when there are no more than 2^32 of
them. -/
theorem filter_matches_build_iff {sources : List Source} {manifest : LocalBatchManifest}
    (h : LocalBatchManifest.build sources = .ok manifest) :
    FilterMatchesBuild sources manifest ↔ sources.length ≤ 2 ^ 32 := by
  constructor
  · intro hmatches
    by_contra hlong
    exact not_filterMatchesBuild h (not_le.mp hlong) hmatches
  · intro hle
    obtain ⟨-, -, rfl⟩ := build_eq_ok.mp h
    have hroots : (LocalBatchManifest.of sources).roots.length = sources.length := List.length_map _
    refine ⟨fun rootIndexes hsorted hlt => ?_, fun rootIndexes hout => ?_⟩
    · rw [hroots] at hlt
      have hsub := select_sublist (increasing_toNat hsorted) (List.forall_mem_map.mpr hlt)
      exact ⟨_, build_sublist hsub h, filter_of hle hsorted hlt⟩
    · have hsources : (LocalBatchManifest.of sources).sources.length = sources.length := List.length_map _
      rw [hroots, ← hsources] at hout
      obtain ⟨err, herr⟩ := selectRoots_error (.of sources) rootIndexes 0 ∅ [] [] hout
      unfold filterLocalBatchManifest
      rw [herr]
      exact ⟨err, rfl⟩

theorem itemsFrom_eq : ∀ (n : ℕ) (sources : List Source),
    itemsFrom n sources = (sources.zipIdx n).flatMap fun p => p.1.items p.2
  | _, [] => rfl
  | n, source :: sources => by rw [itemsFrom, itemsFrom_eq (n + 1) sources, List.zipIdx_cons, List.flatMap_cons]

/-- The manifest is that of the other modules, with the root of each file and a total
that wraps. -/
theorem build_forget {sources : List Source} {manifest : LocalBatchManifest}
    (h : LocalBatchManifest.build sources = .ok manifest) :
    ∃ shared, buildLocalBatchManifest sources = .ok shared ∧ shared.roots = manifest.roots ∧
      shared.entries = manifest.entries ∧
      shared.files = manifest.files.map (fun file => ⟨file.path, file.size⟩) ∧
      manifest.totalBytes = UInt64.ofNat shared.totalBytes := by
  obtain ⟨hlisted, hnames, rfl⟩ := build_eq_ok.mp h
  have hfiles : (manifestOf sources).files =
      (LocalBatchManifest.of sources).files.map fun file => ⟨file.path, file.size⟩ := by
    show (itemsFrom 0 sources).filterMap Item.file? =
      (blocks (fun source i => filesOf source (asU32 i)) sources).map fun file => ⟨file.path, file.size⟩
    rw [itemsFrom_eq, List.filterMap_flatMap, blocks, List.map_flatMap]
    refine List.flatMap_congr fun p _ => ?_
    rw [filesOf_eq, List.map_map, Source.items, Source.items, itemsUnder, itemsUnder, List.filterMap_map,
      List.filterMap_map]
    exact (List.map_id _).symm
  have hentries : (manifestOf sources).entries = (LocalBatchManifest.of sources).entries := by
    show (itemsFrom 0 sources).map Item.entry = blocks (fun source i => entriesOf source (asU32 i)) sources
    rw [itemsFrom_eq, List.map_flatMap, blocks]
    refine List.flatMap_congr fun p _ => ?_
    rw [entriesOf, Source.items, Source.items, itemsUnder, itemsUnder, List.map_map, List.map_map]
    rfl
  have htotal : (manifestOf sources).totalBytes = ((manifestOf sources).files.map BatchFileSource.size).sum := rfl
  have htotalOf : (LocalBatchManifest.of sources).totalBytes = sizes (LocalBatchManifest.of sources).files := rfl
  refine ⟨manifestOf sources, buildBatchManifest_eq manifestTexts hlisted (ensureUniqueRootNames_eq_ok.mpr hnames), rfl,
    hentries, hfiles, ?_⟩
  rw [htotal, hfiles, htotalOf, sizes, List.map_map]
  rfl

/-! ### As many files as an index has values, and one more -/

theorem isName_decimal (n : ℕ) : IsName (decimal n) := by
  have hdigit : ∀ b ∈ decimal n, b ≠ slashByte ∧ b ≠ 46 := by
    intro b hb
    have hbounds := digit_of_mem_decimal hb
    exact ⟨fun h => absurd (h ▸ hbounds.1) (by decide), fun h => absurd (h ▸ hbounds.1) (by decide)⟩
  have hpos := decimal_length_pos n
  refine ⟨List.ne_nil_of_length_pos hpos, fun h => (hdigit _ h).1 rfl, fun h => ?_, fun h => ?_⟩
  · exact (hdigit 46 (h ▸ List.mem_cons_self)).2 rfl
  · exact (hdigit 46 (h ▸ List.mem_cons_self)).2 rfl

/-- An empty file whose name is a number. -/
def numberedFile (n : ℕ) : Source where
  path := Path.ofNames [⟨decimal n, isName_decimal n⟩]
  place := [⟨decimal n, isName_decimal n⟩]
  tree := .leaf (.file 0o644 [])
  ordered := .ofLeaf _

/-- The first files in order. -/
def numberedFiles (n : ℕ) : List Source := (List.range n).map numberedFile

theorem listed_numberedFile (n : ℕ) : (numberedFile n).Listed where
  listable l obj hv := by
    cases l with
    | nil =>
      cases hv
      trivial
    | cons name l => cases hv
  named := by rw [Source.name?, numberedFile, Path.ofNames_fileName]; rfl

theorem build_numberedFiles (n : ℕ) : LocalBatchManifest.build (numberedFiles n) = .ok (.of (numberedFiles n)) := by
  have hname : ∀ k, (numberedFile k).root.sourceName = decimal k := by
    intro k
    have hascii : isUtf8 (decimal k) = true := isUtf8_of_ascii fun b hb => by
      have hbounds := digit_of_mem_decimal hb
      exact UInt8.lt_iff_toNat_lt.mpr (by show b.toNat < 128; omega)
    have hname : (numberedFile k).name? = some ⟨decimal k, isName_decimal k⟩ := by
      rw [Source.name?, numberedFile, Path.ofNames_fileName]
      rfl
    rw [Source.root, hname]
    exact utf8Lossy_of_isUtf8 hascii
  refine build_eq_ok.mpr ⟨fun s hs => ?_, ?_, rfl⟩
  · obtain ⟨k, -, rfl⟩ := List.mem_map.mp hs
    exact listed_numberedFile k
  · rw [numberedFiles, List.map_map, List.map_map]
    refine List.nodup_range.map fun a b hab => decimal_injective ?_
    rw [← hname a, ← hname b]
    exact hab

/-- The first and the last of 2^32 + 1 files are the root 0. -/
theorem filter_ambiguous : LocalBatchManifest.build (numberedFiles (2 ^ 32 + 1)) = .ok (.of (numberedFiles (2 ^ 32 + 1))) ∧
    ¬ FilterMatchesBuild (numberedFiles (2 ^ 32 + 1)) (.of (numberedFiles (2 ^ 32 + 1))) := by
  have hbuild := build_numberedFiles (2 ^ 32 + 1)
  refine ⟨hbuild, not_filterMatchesBuild hbuild ?_⟩
  rw [numberedFiles, List.length_map, List.length_range]
  exact Nat.lt_succ_self _

/-- A directory with a file and a file of its own. -/
theorem filter_matches_build_two : LocalBatchManifest.build [pushedDirectory, numberedFile 7] =
      .ok (.of [pushedDirectory, numberedFile 7]) ∧
    FilterMatchesBuild [pushedDirectory, numberedFile 7] (.of [pushedDirectory, numberedFile 7]) := by
  have hbuild : LocalBatchManifest.build [pushedDirectory, numberedFile 7] = .ok (.of [pushedDirectory, numberedFile 7]) := by
    decide +kernel
  exact ⟨hbuild, (filter_matches_build_iff hbuild).mpr (by decide)⟩

end Client

end Rsdb
