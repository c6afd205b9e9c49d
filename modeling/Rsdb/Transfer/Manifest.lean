/-
# The manifest of a batch

`build_local_batch_manifest` of the client and `build_batch_manifest_from_sources`
of the daemon walk the sources: a directory is listed before what is in it, its
children in the order of their names, a file with its size, and a link or
anything else ends the walk with an error. The two differ in their texts
(`ManifestTexts`) and in what they keep of a file (`ManifestForm`). The index of a
root is a `u32` and wraps (`asU32`).

A source is the tree its path leads to, which stays as it is while it is walked.
`buildBatchManifest_eq` gives the manifest of sources of files and directories:
one entry for each place of each tree, in the order of `DirTree.preorder`. A name
is made a text (`to_string_lossy`), which keeps it if it is one.
-/
import Rsdb.Lib.Utf8
import Rsdb.Transfer.Receive

namespace Rsdb

/-- A source that has been found: its path, the place `canonicalize` gives, and
what is there. -/
structure Source where
  path : Path
  place : Loc
  tree : Tree
  ordered : tree.Ordered

/-- `as u32`. -/
def asU32 (n : ℕ) : ℕ := n % 2 ^ 32

theorem asU32_of_lt {n : ℕ} (h : n < 2 ^ 32) : asU32 n = n := Nat.mod_eq_of_lt h

/-- The texts of a builder, and how it asks for distinct root names. -/
structure ManifestTexts where
  symlink : Path → Str
  unsupported : Path → Str
  uniqueRootNames : List TransferRoot → Except AnyhowError Unit

/-- What a builder keeps of a file, by its root, its path and its size, and how it adds
sizes up. -/
structure ManifestForm (F T : Type) extends ManifestTexts where
  file : ℕ → Path → ℕ → F
  count : T → ℕ → T

/-! ### Building it -/

/-- `path_to_transfer_string`. -/
def pathToTransferString (path : Path) : Except AnyhowError Str :=
  if path.isEmpty then .ok []
  else
    match path.abs, plainNames path.comps with
    | false, some names => .ok (Path.joinSlash (names.map fun name => utf8Lossy name.1))
    | _, _ => .error (.bail (str "invalid transfer path: " ++ path.display))

/-- `transfer_source_name`: the file name, or the one of the place `canonicalize` gives. -/
def transferSourceName (source : Source) : Except AnyhowError Str :=
  match source.path.fileName with
  | some name => .ok (utf8Lossy name.1)
  | none =>
    match source.place.getLast? with
    | some name => .ok (utf8Lossy name.1)
    | none => .error (.bail (str "path has no usable file name: " ++ source.path.display))

/-- `file_mode` and `local_file_mode`. -/
def fileMode (mode : ℕ) : ℕ := mode &&& 0o7777

/-- What the walk has listed. -/
structure ManifestRows (F T : Type) where
  entries : List TransferEntry
  files : List F
  totalBytes : T

/-- The relative path of a child. -/
def childRelative (relative : Path) (name : Name) : Path :=
  if relative.isEmpty then Path.ofNames [name] else relative.push name

section Build

variable {F T : Type} (form : ManifestForm F T) (rootIndex : ℕ)

mutual

/-- `append_manifest_entry` and `append_local_manifest_entry`. -/
def appendManifestEntry : Tree → Path → Path → ManifestRows F T → Except AnyhowError (ManifestRows F T)
  | .leaf (.symlink _), path, _, _ => .error (.bail (form.symlink path))
  | .leaf (.other _), path, _, _ => .error (.bail (form.unsupported path))
  | .leaf (.file mode content), path, relative, rows => do
    let relativePath ← pathToTransferString relative
    .ok {
      entries := rows.entries ++ [⟨rootIndex, relativePath, .file, fileMode mode, content.length⟩]
      files := rows.files ++ [form.file rootIndex path content.length]
      totalBytes := form.count rows.totalBytes content.length }
  | .dir mode children, path, relative, rows => do
    let relativePath ← pathToTransferString relative
    appendChildren children path relative
      { rows with entries := rows.entries ++ [⟨rootIndex, relativePath, .directory, fileMode mode, 0⟩] }

/-- The children in turn. They are in the order that `sort` gives them. -/
def appendChildren : List (Name × Tree) → Path → Path → ManifestRows F T → Except AnyhowError (ManifestRows F T)
  | [], _, _, rows => .ok rows
  | (name, child) :: children, path, relative, rows => do
    let rows ← appendManifestEntry child (path.push name) (childRelative relative name) rows
    appendChildren children path relative rows

end

/-- The kind of a root and its permission bits. -/
def rootKind (texts : ManifestTexts) (source : Source) : Except AnyhowError (TransferEntryKind × ℕ) :=
  match source.tree with
  | .leaf (.symlink _) => .error (.bail (texts.symlink source.path))
  | .leaf (.other _) => .error (.bail (texts.unsupported source.path))
  | .leaf (.file mode _) => .ok (.file, fileMode mode)
  | .dir mode _ => .ok (.directory, fileMode mode)

/-- The sources in turn. -/
def appendSources : List Source → List TransferRoot → ManifestRows F T →
    Except AnyhowError (List TransferRoot × ManifestRows F T)
  | [], roots, rows => .ok (roots, rows)
  | source :: sources, roots, rows => do
    let (kind, mode) ← rootKind form.toManifestTexts source
    let rootIndex := asU32 roots.length
    let sourceName ← transferSourceName source
    let rows ← appendManifestEntry form rootIndex source.tree source.path .empty rows
    appendSources sources (roots ++ [⟨sourceName, kind, mode⟩]) rows

end Build

/-- The rows of a `BatchManifest`, whose files are paths and sizes. -/
def ManifestTexts.form (texts : ManifestTexts) : ManifestForm BatchFileSource ℕ where
  toManifestTexts := texts
  file _ path size := ⟨path, size⟩
  count total size := total + size

/-- The two builders, with these texts. -/
def buildBatchManifest (texts : ManifestTexts) (sources : List Source) : Except AnyhowError BatchManifest := do
  let (roots, rows) ← appendSources texts.form sources [] ⟨[], [], 0⟩
  texts.uniqueRootNames roots
  .ok ⟨roots, rows.entries, rows.files, rows.totalBytes⟩

namespace Client

/-- The texts of `build_local_batch_manifest`. -/
def manifestTexts : ManifestTexts where
  symlink path := str "symbolic links are not supported in batch push: " ++ path.display
  unsupported path := str "unsupported local path type: " ++ path.display
  uniqueRootNames := ensureUniqueRootNames

/-- `build_local_batch_manifest`, on the sources that have been found; what it keeps of
them beside is in `LocalBatchManifest.build`. -/
def buildLocalBatchManifest (sources : List Source) : Except AnyhowError BatchManifest :=
  buildBatchManifest manifestTexts sources

end Client

namespace Daemon

/-- The texts of `build_batch_manifest_from_sources`. -/
def manifestTexts : ManifestTexts where
  symlink path := str "symbolic links are not supported in batch pull: " ++ path.display
  unsupported path := str "unsupported remote path type: " ++ path.display
  uniqueRootNames := ensureUniqueRootNames

/-- `build_batch_manifest_from_sources`, on the sources that have been found. -/
def buildBatchManifestFromSources (sources : List Source) : Except AnyhowError BatchManifest :=
  buildBatchManifest manifestTexts sources

end Daemon

/-! ### What it lists -/

/-- One place of one source. -/
structure Item where
  rootIndex : ℕ
  /-- The path it is read from. -/
  path : Path
  names : List Name
  obj : Obj

namespace Item

/-- The kind it is listed with. -/
def kind (item : Item) : TransferEntryKind := if item.obj.isLeft then .file else .directory

/-- The contents of a file. -/
def content? (item : Item) : Option Bytes :=
  match item.obj with
  | .inl (.file _ content) => some content
  | _ => none

/-- Its entry under a root of this index. -/
def entryAt (index : ℕ) (item : Item) : TransferEntry where
  rootIndex := index
  relativePath := Path.joinSlash (item.names.map fun name => utf8Lossy name.1)
  kind := item.kind
  mode := fileMode item.obj.mode
  size := (item.content?.getD []).length

/-- Its entry: the index of its root as a `u32`. -/
def entry (item : Item) : TransferEntry := item.entryAt (asU32 item.rootIndex)

/-- Below 2^32 roots an entry has the number of its root. -/
theorem rootIndex_entry {item : Item} (h : item.rootIndex < 2 ^ 32) : item.entry.rootIndex = item.rootIndex :=
  asU32_of_lt h

/-- What is kept of a file. -/
def fileAt {F T : Type} (form : ManifestForm F T) (index : ℕ) (item : Item) : Option F :=
  item.content?.map fun content => form.file index item.path content.length

/-- The path and the size of a file. -/
def file? (item : Item) : Option BatchFileSource := item.content?.map fun content => ⟨item.path, content.length⟩

end Item

/-- A file or a directory, with some permission bit. -/
def Obj.Plain : Obj → Prop
  | .inl (.file mode _) => fileMode mode ≠ 0
  | .inr mode => fileMode mode ≠ 0
  | .inl _ => False

instance : DecidablePred Obj.Plain
  | .inl (.file mode _) => inferInstanceAs (Decidable (fileMode mode ≠ 0))
  | .inr mode => inferInstanceAs (Decidable (fileMode mode ≠ 0))
  | .inl (.symlink _) | .inl (.other _) => isFalse id

/-- A file or a directory. -/
def Obj.Listable : Obj → Prop
  | .inl (.file _ _) | .inr _ => True
  | .inl _ => False

/-- Files and directories only. -/
def ListableTree (t : Tree) : Prop := ∀ l obj, t.view l = some obj → Obj.Listable obj

/-- Files and directories only, with permission bits. -/
def PlainTree (t : Tree) : Prop := ∀ l obj, t.view l = some obj → Obj.Plain obj

theorem plainTree_iff {t : Tree} (h : t.Ordered) : PlainTree t ↔ ∀ p ∈ t.preorder, Obj.Plain p.2.label := by
  constructor
  · intro hp p hmem
    refine hp p.1 p.2.label ?_
    rw [DirTree.view, (DirTree.mem_preorder h).mp hmem, Option.map_some]
  · intro hp l obj hv
    rw [DirTree.view, Option.map_eq_some_iff] at hv
    obtain ⟨u, hu, rfl⟩ := hv
    exact hp (l, u) ((DirTree.mem_preorder h).mpr hu)

/-- The text of a name is a name. -/
theorem isName_utf8Lossy (n : Name) : IsName (utf8Lossy n.1) := by
  obtain ⟨hne, hslash, hdot, hdotdot⟩ := n.2
  have hshort : ∀ s : Str, 0xEF ∉ s → n.1 ≠ s → utf8Lossy n.1 ≠ s := by
    intro s hs hn heq
    have hself : utf8Lossy n.1 = n.1 := utf8Lossy_eq_self (heq ▸ hs)
    exact hn (hself.symm.trans heq)
  exact ⟨utf8Lossy_ne_nil hne, fun hmem => hslash (mem_of_mem_utf8Lossy (by decide) hmem),
    hshort dotName (by decide) hdot, hshort dotDotName (by decide) hdotdot⟩

/-- The name as a text. -/
def lossyName (n : Name) : Name := ⟨utf8Lossy n.1, isName_utf8Lossy n⟩

theorem lossyName_of_isUtf8 {n : Name} (h : isUtf8 n.1 = true) : lossyName n = n := Subtype.ext (utf8Lossy_of_isUtf8 h)

/-- The names in a tree are texts. -/
def TextTree (t : Tree) : Prop := ∀ l obj, t.view l = some obj → ∀ name ∈ l, isUtf8 name.1 = true

theorem textTree_of_preorder {t : Tree} (h : t.Ordered) (hp : ∀ p ∈ t.preorder, ∀ name ∈ p.1, isUtf8 name.1 = true) :
    TextTree t := by
  intro l obj hv
  rw [DirTree.view, Option.map_eq_some_iff] at hv
  obtain ⟨u, hu, rfl⟩ := hv
  exact hp (l, u) ((DirTree.mem_preorder h).mpr hu)

/-- The places of a tree, read from a path and named from some names on. -/
def itemsUnder (rootIndex : ℕ) (path : Path) (names : List Name) (places : List (Loc × Tree)) : List Item :=
  places.map fun p => ⟨rootIndex, p.1.foldl Path.push path, names ++ p.1, p.2.label⟩

namespace Source

/-- The name of a source, if it has one: that of its path, or of its place. -/
def name? (source : Source) : Option Name := source.path.fileName.or source.place.getLast?

/-- A source as a root: its name, whether it is a directory, and its bits. -/
def root (source : Source) : TransferRoot where
  sourceName := utf8Lossy ((source.name?.map Subtype.val).getD [])
  kind := if source.tree.label.isLeft then .file else .directory
  mode := fileMode (Obj.mode source.tree.label)

/-- What a source brings, itself first. -/
def items (rootIndex : ℕ) (source : Source) : List Item :=
  itemsUnder rootIndex source.path [] source.tree.preorder

end Source

/-- The items of the sources, whose roots are numbered from `n` on. -/
def itemsFrom (n : ℕ) : List Source → List Item
  | [] => []
  | source :: sources => source.items n ++ itemsFrom (n + 1) sources

/-- What all the sources bring, root by root. -/
def manifestItems (sources : List Source) : List Item := itemsFrom 0 sources

section Rows

variable {F T : Type} (form : ManifestForm F T)

/-- The rows of some items under one root, after others. -/
def ManifestRows.add (index : ℕ) (rows : ManifestRows F T) (items : List Item) : ManifestRows F T where
  entries := rows.entries ++ items.map (Item.entryAt index)
  files := rows.files ++ items.filterMap (Item.fileAt form index)
  totalBytes := (items.filterMap Item.content?).foldl (fun total content => form.count total content.length) rows.totalBytes

/-- The rows of some sources, whose roots are numbered from `n` on, after others. -/
def ManifestRows.addFrom : ℕ → ManifestRows F T → List Source → ManifestRows F T
  | _, rows, [] => rows
  | n, rows, source :: sources => addFrom (n + 1) (rows.add form (asU32 n) (source.items n)) sources

theorem ManifestRows.add_append (index : ℕ) (rows : ManifestRows F T) (a b : List Item) :
    rows.add form index (a ++ b) = (rows.add form index a).add form index b := by
  simp [ManifestRows.add]

end Rows

theorem plainNames_map : ∀ names : List Name, plainNames (names.map .normal) = some names
  | [] => rfl
  | n :: names => by rw [List.map_cons, plainNames, plainNames_map names, Option.map_some]

/-- The text of a relative path of names. -/
theorem pathToTransferString_of_names {rel : Path} {names : List Name} (habs : rel.abs = false)
    (hcomps : rel.comps = names.map .normal) :
    pathToTransferString rel = .ok (Path.joinSlash (names.map fun name => utf8Lossy name.1)) := by
  unfold pathToTransferString
  simp only [Path.isEmpty_eq, habs, hcomps, plainNames_map]
  cases names <;> rfl

theorem pathToTransferString_ofNames (names : List Name) :
    pathToTransferString (Path.ofNames names) = .ok (Path.joinSlash (names.map fun name => utf8Lossy name.1)) :=
  pathToTransferString_of_names (Path.ofNames_abs names) (Path.ofNames_comps names)

theorem childRelative_ofNames (names : List Name) (name : Name) :
    childRelative (Path.ofNames names) name = Path.ofNames (names ++ [name]) := by
  cases names with
  | nil => rfl
  | cons n names => simp [childRelative, Path.ofNames_push]

/-- The relative path of an entry gives its names back. -/
theorem relativeNames_joinSlash (names : List Name) :
    relativeNames (Path.joinSlash (names.map Subtype.val)) = some names := by
  rw [relativeNames, Path.ofStr_joinSlash, Path.ofNames_abs, Path.ofNames_comps]
  exact plainNames_map names

/-- Names that are texts stay as they are. -/
theorem map_utf8Lossy {names : List Name} (h : ∀ name ∈ names, isUtf8 name.1 = true) :
    (names.map fun name => utf8Lossy name.1) = names.map Subtype.val :=
  List.map_congr_left fun name hname => utf8Lossy_of_isUtf8 (h name hname)

theorem Item.relativeNames_entry {item : Item} (h : ∀ name ∈ item.names, isUtf8 name.1 = true) :
    relativeNames item.entry.relativePath = some item.names := by
  rw [Item.entry, Item.entryAt, map_utf8Lossy h, relativeNames_joinSlash]

theorem PlainTree.listable {t : Tree} (h : PlainTree t) : ListableTree t := by
  intro l obj hv
  have hplain := h l obj hv
  match obj with
  | .inl (.file mode content) => trivial
  | .inr mode => trivial
  | .inl (.symlink target) => exact hplain
  | .inl (.other mode) => exact hplain

theorem ListableTree.child {mode : ℕ} {children : List (Name × Tree)} (h : ListableTree (.dir mode children))
    (hord : (DirTree.dir mode children : Tree).Ordered) : ∀ c ∈ children, ListableTree c.2 := by
  intro c hc l obj hv
  refine h (c.1 :: l) obj ?_
  rw [DirTree.view, DirTree.sub_dir_cons, DirTree.child_of_mem hord.names hc]
  exact hv

section BuildEq

variable {F T : Type} (form : ManifestForm F T) (index rootIndex : ℕ)

theorem itemsUnder_child (path : Path) (names : List Name) (n : Name) (places : List (Loc × Tree)) :
    itemsUnder rootIndex path names (places.map fun p => (n :: p.1, p.2)) =
      itemsUnder rootIndex (path.push n) (names ++ [n]) places := by
  simp [itemsUnder]

mutual

/-- A tree is listed place by place. -/
theorem appendManifestEntry_eq : ∀ {t : Tree}, t.Ordered → ListableTree t → ∀ (path : Path) (names : List Name)
    (rows : ManifestRows F T), appendManifestEntry form index t path (Path.ofNames names) rows =
      .ok (rows.add form index (itemsUnder rootIndex path names t.preorder))
  | .leaf (.symlink target), _, hp, _, _, _ => (hp [] _ rfl).elim
  | .leaf (.other mode), _, hp, _, _, _ => (hp [] _ rfl).elim
  | .leaf (.file mode content), _, _, path, names, rows => by
    simp only [appendManifestEntry, pathToTransferString_ofNames, DirTree.preorder]
    simp [bind, Except.bind, itemsUnder, ManifestRows.add, Item.entryAt, Item.fileAt, Item.content?, Item.kind,
      DirTree.label, Obj.mode]
  | .dir mode children, hord, hp, path, names, rows => by
    have hrest := appendChildren_eq hord.names (fun c hc => hord.mem hc) (hp.child hord) path names
    have hitems : itemsUnder rootIndex path names (DirTree.dir mode children : Tree).preorder =
        [⟨rootIndex, path, names, .inr mode⟩] ++ itemsUnder rootIndex path names (DirTree.preorderIn children) := by
      simp [itemsUnder, DirTree.preorder, DirTree.label]
    have hself : rows.add form index [⟨rootIndex, path, names, .inr mode⟩] =
        { rows with entries := rows.entries ++
            [⟨index, Path.joinSlash (names.map fun name => utf8Lossy name.1), .directory, fileMode mode, 0⟩] } := by
      have hcontents : [(⟨rootIndex, path, names, .inr mode⟩ : Item)].filterMap Item.content? = [] := rfl
      have hfiles : [(⟨rootIndex, path, names, .inr mode⟩ : Item)].filterMap (Item.fileAt form index) = [] := rfl
      simp [ManifestRows.add, hcontents, hfiles, Item.entryAt, Item.content?, Item.kind, Obj.mode]
    simp only [appendManifestEntry, pathToTransferString_ofNames, bind, Except.bind, hrest, hitems,
      ManifestRows.add_append, hself]

theorem appendChildren_eq : ∀ {children : List (Name × Tree)}, DirTree.NamesOrdered children →
    (∀ c ∈ children, c.2.Ordered) → (∀ c ∈ children, ListableTree c.2) → ∀ (path : Path) (names : List Name)
    (rows : ManifestRows F T), appendChildren form index children path (Path.ofNames names) rows =
      .ok (rows.add form index (itemsUnder rootIndex path names (DirTree.preorderIn children)))
  | [], _, _, _, path, names, rows => by
    simp [appendChildren, DirTree.preorderIn, itemsUnder, ManifestRows.add]
  | (n, t) :: children, hnames, hord, hp, path, names, rows => by
    have hhead := appendManifestEntry_eq (hord _ List.mem_cons_self) (hp _ List.mem_cons_self)
      (path.push n) (names ++ [n]) rows
    have hrest := appendChildren_eq (List.pairwise_cons.mp hnames).2
      (fun c hc => hord c (List.mem_cons_of_mem _ hc)) (fun c hc => hp c (List.mem_cons_of_mem _ hc)) path names
    simp only [appendChildren, childRelative_ofNames, hhead, bind, Except.bind, hrest, DirTree.preorderIn]
    rw [← ManifestRows.add_append, ← itemsUnder_child]
    simp [itemsUnder]

end

end BuildEq

/-- A source the walk can list: files and directories, and a name. -/
structure Source.Listed (source : Source) : Prop where
  listable : ListableTree source.tree
  named : source.name?.isSome = true

/-- A source that arrives as it is: plain, with a name, and the names are texts. -/
structure Source.Good (source : Source) : Prop where
  plain : PlainTree source.tree
  named : source.name?.isSome = true
  nameText : ∀ name ∈ source.name?, isUtf8 name.1 = true
  text : TextTree source.tree

theorem Source.Good.listed {source : Source} (h : source.Good) : source.Listed := ⟨h.plain.listable, h.named⟩

/-- A source the walk can list as it is, since the names are texts. -/
structure Source.Legible (source : Source) : Prop extends source.Listed where
  nameText : ∀ name ∈ source.name?, isUtf8 name.1 = true
  text : TextTree source.tree

theorem Source.Good.legible {source : Source} (h : source.Good) : source.Legible := ⟨h.listed, h.nameText, h.text⟩

theorem transferSourceName_eq {source : Source} (h : source.name?.isSome = true) :
    transferSourceName source = .ok source.root.sourceName := by
  unfold transferSourceName Source.root
  unfold Source.name? at h ⊢
  cases hf : source.path.fileName with
  | some name => simp
  | none =>
    rw [hf] at h
    cases hp : source.place.getLast? with
    | some name => simp
    | none => simp [hp] at h

theorem rootKind_eq (texts : ManifestTexts) {source : Source} (h : ListableTree source.tree) :
    rootKind texts source = .ok (source.root.kind, source.root.mode) := by
  have hroot := h [] source.tree.label (by simp [DirTree.view])
  unfold rootKind Source.root
  cases ht : source.tree with
  | dir mode children => rfl
  | leaf leaf =>
    cases leaf with
    | file mode content => rfl
    | symlink target => rw [ht] at hroot; exact hroot.elim
    | other mode => rw [ht] at hroot; exact hroot.elim

theorem appendSources_eq {F T : Type} (form : ManifestForm F T) : ∀ {sources : List Source}, (∀ s ∈ sources, s.Listed) →
    ∀ (roots : List TransferRoot) (rows : ManifestRows F T), appendSources form sources roots rows =
      .ok (roots ++ sources.map Source.root, rows.addFrom form roots.length sources)
  | [], _, roots, rows => by simp [appendSources, ManifestRows.addFrom]
  | source :: sources, h, roots, rows => by
    have hlisted := h source List.mem_cons_self
    have hentry := appendManifestEntry_eq form (asU32 roots.length) roots.length source.ordered hlisted.listable
      source.path [] rows
    have hrest := appendSources_eq form (fun s hs => h s (List.mem_cons_of_mem _ hs))
      (roots ++ [source.root]) (rows.add form (asU32 roots.length) (source.items roots.length))
    have hempty : Path.empty = Path.ofNames [] := rfl
    rw [List.length_append, List.length_singleton, List.append_assoc] at hrest
    simp only [appendSources, rootKind_eq form.toManifestTexts hlisted.listable, transferSourceName_eq hlisted.named,
      hempty, hentry, bind, Except.bind]
    exact hrest

/-- The manifest of some sources. -/
def manifestOf (sources : List Source) : BatchManifest where
  roots := sources.map Source.root
  entries := (manifestItems sources).map Item.entry
  files := (manifestItems sources).filterMap Item.file?
  totalBytes := (((manifestItems sources).filterMap Item.file?).map BatchFileSource.size).sum

/-- Paths and sizes are added up over all sources. -/
theorem addFrom_form (texts : ManifestTexts) : ∀ (n : ℕ) (rows : ManifestRows BatchFileSource ℕ) (sources : List Source),
    rows.addFrom texts.form n sources =
      ⟨rows.entries ++ (itemsFrom n sources).map Item.entry, rows.files ++ (itemsFrom n sources).filterMap Item.file?,
        rows.totalBytes + (((itemsFrom n sources).filterMap Item.file?).map BatchFileSource.size).sum⟩
  | n, rows, [] => by simp [ManifestRows.addFrom, itemsFrom]
  | n, rows, source :: sources => by
    have hentries : ∀ places : List (Loc × Tree), (itemsUnder n source.path [] places).map (Item.entryAt (asU32 n)) =
        (itemsUnder n source.path [] places).map Item.entry := by
      intro places
      rw [itemsUnder, List.map_map, List.map_map]
      rfl
    have htotal : ∀ (items : List Item) (total : ℕ),
        (items.filterMap Item.content?).foldl (fun total content => total + content.length) total =
          total + ((items.filterMap Item.file?).map BatchFileSource.size).sum := by
      intro items
      induction items with
      | nil => simp
      | cons item items ih =>
        intro total
        cases hcontent : item.content? with
        | none => simp [hcontent, Item.file?, ih]
        | some content =>
          simp only [List.filterMap_cons, hcontent, List.foldl_cons, ih, Item.file?, Option.map_some, List.map_cons,
            List.sum_cons, Nat.add_assoc]
    rw [ManifestRows.addFrom, addFrom_form texts (n + 1)]
    simp only [ManifestRows.add, itemsFrom, List.map_append, List.filterMap_append, List.sum_append, ← List.append_assoc]
    rw [Source.items, hentries]
    congr 1
    rw [← Nat.add_assoc]
    exact congrArg (· + _) (htotal _ rows.totalBytes)

theorem buildBatchManifest_eq (texts : ManifestTexts) {sources : List Source} (h : ∀ s ∈ sources, s.Listed)
    (hnames : texts.uniqueRootNames (sources.map Source.root) = .ok ()) :
    buildBatchManifest texts sources = .ok (manifestOf sources) := by
  have hsources := appendSources_eq texts.form h [] ⟨[], [], 0⟩
  simp only [List.nil_append, List.length_nil, addFrom_form, Nat.zero_add] at hsources
  simp only [buildBatchManifest, hsources, hnames, bind, Except.bind]
  rfl

/-! ### The items -/

theorem mem_itemsFrom {item : Item} : ∀ {n : ℕ} {sources : List Source},
    item ∈ itemsFrom n sources ↔ ∃ (i : ℕ) (source : Source), sources[i]? = some source ∧ item ∈ source.items (n + i)
  | n, [] => by simp [itemsFrom]
  | n, source :: sources => by
    have ih : item ∈ itemsFrom (n + 1) sources ↔
        ∃ (i : ℕ) (source : Source), sources[i]? = some source ∧ item ∈ source.items (n + 1 + i) := mem_itemsFrom
    rw [itemsFrom, List.mem_append, ih]
    constructor
    · rintro (h | ⟨i, s, hs, h⟩)
      · exact ⟨0, source, rfl, h⟩
      · exact ⟨i + 1, s, hs, by rwa [← Nat.add_assoc, Nat.add_right_comm]⟩
    · rintro ⟨i, s, hs, h⟩
      cases i with
      | zero =>
        obtain rfl := Option.some.inj hs
        exact Or.inl h
      | succ i => exact Or.inr ⟨i, s, hs, by rwa [Nat.add_right_comm, Nat.add_assoc]⟩

/-- An item is what is at a place of a source. -/
theorem Source.view_of_mem_items {source : Source} {i : ℕ} {item : Item} (h : item ∈ source.items i) :
    item.rootIndex = i ∧ source.tree.view item.names = some item.obj := by
  obtain ⟨⟨l, u⟩, hmem, rfl⟩ := List.mem_map.mp h
  refine ⟨rfl, ?_⟩
  rw [List.nil_append, DirTree.view, (DirTree.mem_preorder source.ordered).mp hmem, Option.map_some]

theorem Source.mem_items_of_view {source : Source} {l : Loc} {obj : Obj} (h : source.tree.view l = some obj) (i : ℕ) :
    ∃ item ∈ source.items i, item.rootIndex = i ∧ item.names = l ∧ item.obj = obj := by
  rw [DirTree.view, Option.map_eq_some_iff] at h
  obtain ⟨u, hu, rfl⟩ := h
  exact ⟨_, List.mem_map_of_mem ((DirTree.mem_preorder source.ordered).mpr hu), rfl, rfl, rfl⟩

theorem source_of_item {sources : List Source} {item : Item} (h : item ∈ manifestItems sources) :
    ∃ source, sources[item.rootIndex]? = some source ∧ source.tree.view item.names = some item.obj := by
  obtain ⟨i, source, hs, hitem⟩ := mem_itemsFrom.mp h
  obtain ⟨hindex, hview⟩ := Source.view_of_mem_items hitem
  rw [Nat.zero_add] at hindex
  exact ⟨source, hindex ▸ hs, hview⟩

/-- The number of a root, where there are few enough. -/
theorem rootIndex_of_item {sources : List Source} (hfew : sources.length ≤ 2 ^ 32) {item : Item} (h : item ∈ manifestItems sources) :
    item.entry.rootIndex = item.rootIndex := by
  obtain ⟨source, hs, -⟩ := source_of_item h
  have hlt := (List.getElem?_eq_some_iff.mp hs).1
  exact Item.rootIndex_entry (by omega)

/-- No place is listed twice. -/
theorem nodup_itemsFrom : ∀ (n : ℕ) (sources : List Source),
    ((itemsFrom n sources).map fun item => (item.rootIndex, item.names)).Nodup
  | _, [] => List.nodup_nil
  | n, source :: sources => by
    have hmap : ((source.items n).map fun item => (item.rootIndex, item.names)) =
        (source.tree.preorder.map Prod.fst).map fun l => (n, l) := by
      simp [Source.items, itemsUnder]
    rw [itemsFrom, List.map_append, List.nodup_append, hmap]
    refine ⟨(DirTree.nodup_preorder source.ordered).map fun _ _ h => (Prod.mk.inj h).2, nodup_itemsFrom _ _, ?_⟩
    intro a ha b hb heq
    obtain ⟨l, -, rfl⟩ := List.mem_map.mp ha
    obtain ⟨item, hitem, rfl⟩ := List.mem_map.mp hb
    obtain ⟨i, s, -, hs⟩ := mem_itemsFrom.mp hitem
    have hindex := (Source.view_of_mem_items hs).1
    have hn : n = item.rootIndex := (Prod.mk.inj heq).1
    omega

end Rsdb
