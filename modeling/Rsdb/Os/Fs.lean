/-
# The operating system the programs run on

Files and directories in a tree of names (`DirTree`), symbolic links among the
leaves, a working directory, a umask, and open files. A call is a `Call`;
`Os.step` says what it answers and does. A program over these calls is an
`Act`.

Paths are resolved as the kernel does: component by component from the working
directory or the root, `..` by going up, a link by its target before what is
left, at most 40 of them, and a search permission asked of every directory on
the way. A `privileged` process (root) is asked for no permission; another one
is taken to own what it meets, so that the owner's bits decide.

There is one mount, so that no `rename` goes from one to another, and no two names
share a file. An open file follows its file when the file is renamed, and keeps it
when its name is removed (`orphans`). A process that is not privileged takes the
setuid bit from a file it writes, and the setgid bit from one that its group may
execute (`clearedBits`). How large a directory is, is for the file system to say
(`dirSize`).
-/
import Rsdb.Lib.DirTree
import Rsdb.Lib.Prog
import Rsdb.Os.Path
import Mathlib.Data.List.Lex
import Mathlib.Order.Lattice
import Mathlib.Order.Defs.LinearOrder

namespace Rsdb

/-- Names are compared byte by byte. -/
instance : LinearOrder Name :=
  LinearOrder.lift' (fun n : Name => n.1.map UInt8.toNat) fun _ _ h =>
    Subtype.ext (List.map_injective_iff.mpr (fun _ _ => UInt8.toNat_inj.mp) h)

/-- A place in the tree. -/
abbrev Loc := List Name

/-- What is not a directory: a file with its permission bits, a symbolic link,
or something else (a fifo, a device, a socket). -/
inductive Leaf where
  | file (mode : ℕ) (content : Bytes)
  | symlink (target : Path)
  | other (mode : ℕ)
  deriving DecidableEq

/-- A directory's label is its permission bits. -/
abbrev Tree := DirTree Name Leaf ℕ

/-- What is at a place: a leaf, or a directory. -/
abbrev Obj := Leaf ⊕ ℕ

/-- What `metadata` says. -/
structure Metadata where
  kind : FsEntryKind
  mode : ℕ
  size : ℕ
  deriving DecidableEq

namespace Metadata

/-- It is a directory. -/
def isDir (m : Metadata) : Bool := m.kind = .directory

/-- It is a regular file. -/
def isFile (m : Metadata) : Bool := m.kind = .file

end Metadata

/-- The kind of what is there. -/
def Obj.kind : Obj → FsEntryKind
  | .inl (.file _ _) => .file
  | .inl (.symlink _) => .symlink
  | .inl (.other _) => .other
  | .inr _ => .directory

/-- The permission bits. A link has all of them. -/
def Obj.mode : Obj → ℕ
  | .inl (.file mode _) => mode
  | .inl (.symlink _) => 0o777
  | .inl (.other mode) => mode
  | .inr mode => mode

/-- It is a directory. -/
def Obj.isDir (obj : Obj) : Bool := obj.kind = .directory

theorem Obj.of_isDir : ∀ {obj : Obj}, obj.isDir = true → ∃ mode, obj = .inr mode
  | .inr mode, _ => ⟨mode, rfl⟩
  | .inl (.file _ _), h | .inl (.symlink _), h | .inl (.other _), h => by cases h

/-- The size of a file. -/
def Obj.fileSize : Obj → Option ℕ
  | .inl (.file _ content) => some content.length
  | _ => none

/-! ### Calls -/

/-- The calls a program makes. -/
inductive Call where
  | stat (path : Path)
  | lstat (path : Path)
  | mkdir (path : Path)
  /-- `O_WRONLY | O_CREAT | O_TRUNC`. -/
  | openWrite (path : Path) (mode : ℕ)
  /-- `O_WRONLY | O_CREAT | O_EXCL`. -/
  | createNew (path : Path) (mode : ℕ)
  | openRead (path : Path)
  | read (fd n : ℕ)
  | write (fd : ℕ) (data : Bytes)
  | chmod (path : Path) (mode : ℕ)
  | readDir (path : Path)
  | rename (source destination : Path)
  | unlink (path : Path)
  | rmdir (path : Path)
  /-- A directory to go through, without following a link at the end; `dir` is
  the open directory the path starts in. An open directory is named by its
  place. -/
  | openDir (dir : Option Loc) (path : Path)
  /-- The names in an open directory, and which of them are directories. -/
  | listDir (dir : Loc)
  | unlinkAt (dir : Loc) (path : Path)
  | rmdirAt (dir : Loc) (path : Path)

/-- What a call returns when it succeeds. -/
abbrev Call.Value : Call → Type
  | stat _ | lstat _ => Metadata
  | openWrite _ _ | createNew _ _ | openRead _ => ℕ
  | read _ _ => Bytes
  | readDir _ => List Name
  | openDir _ _ => Loc
  | listDir _ => List (Name × Bool)
  | mkdir _ | write _ _ | chmod _ _ | rename _ _ | unlink _ | rmdir _ | unlinkAt _ _ | rmdirAt _ _ => Unit

/-- A call returns its value or fails. -/
abbrev Call.Answer (c : Call) : Type := Except IoError c.Value

/-- A program over the operating system. -/
abbrev Act (α : Type) := Prog Call Call.Answer AnyhowError α

/-! ### The state -/

/-- An open file: at a place in the tree, or one of the removed files. -/
structure Handle where
  file : Loc ⊕ ℕ
  offset : ℕ
  deriving DecidableEq

/-- The state of a process and its filesystem. -/
structure Os where
  tree : Tree
  ordered : tree.Ordered
  cwd : Loc
  umask : ℕ
  privileged : Bool
  handles : List Handle
  /-- The contents of files that are open and have no name. -/
  orphans : List Bytes
  /-- What the file system says of the size of a directory, from all that is there. -/
  dirSize : (Loc → Option Obj) → Loc → ℕ

namespace Os

/-- What is at a place. -/
def view (os : Os) (l : Loc) : Option Obj := os.tree.view l

/-- The size of what is at a place: a file's is that of its content, a link's that of
its target. -/
def size (os : Os) (l : Loc) : Obj → ℕ
  | .inl (.file _ content) => content.length
  | .inl (.symlink target) => target.display.length
  | .inl (.other _) => 0
  | .inr _ => os.dirSize os.view l

/-- What `stat` says of what is at a place. -/
def metadata (os : Os) (l : Loc) (obj : Obj) : Metadata := ⟨obj.kind, obj.mode, os.size l obj⟩

/-- A permission bit of the owner. -/
def may (os : Os) (mode bit : ℕ) : Bool := os.privileged || mode &&& bit != 0

/-- The owner may read. -/
def ownerRead : ℕ := 0o400

/-- The owner may write. -/
def ownerWrite : ℕ := 0o200

/-- The owner may go through the directory. -/
def ownerSearch : ℕ := 0o100

/-- The tree with another subtree at a place. -/
def put (os : Os) (l : Loc) (x : Option { t : Tree // t.Ordered }) : Os :=
  { os with
    tree := os.tree.put l (x.map Subtype.val)
    ordered := os.ordered.put fun u hu => by
      obtain ⟨t, -, rfl⟩ := Option.map_eq_some_iff.mp hu
      exact t.2 }

/-- With a leaf at a place. -/
def withLeaf (os : Os) (l : Loc) (leaf : Leaf) : Os := os.put l (some ⟨.leaf leaf, .ofLeaf _⟩)

/-- With an empty directory at a place. -/
def withDir (os : Os) (l : Loc) (mode : ℕ) : Os :=
  os.put l (some ⟨.dir mode [], .ofDir _ _ List.Pairwise.nil (by simp)⟩)

/-! ### Resolving a path -/

/-- What a path leads to: an object, or a place in an existing directory with
nothing there. -/
inductive Found where
  | entry (loc : Loc) (obj : Obj)
  | missing (loc : Loc)

/-- The components the kernel goes through: a `.` at the end is one. -/
def kernelComps (p : Path) : List Comp := p.comps ++ if p.dot then [.cur] else []

/-- A link's target in the middle of a path. A slash at its end asks for a
directory. -/
def targetComps (p : Path) : List Comp := p.comps ++ if p.dot ∨ p.slash then [.cur] else []

/-- One pass over the components; `jump` is where a link leads. -/
def walkWith (os : Os) (follow : Bool) (jump : List Comp → Loc → Except IoErrorKind Found) :
    List Comp → Loc → Except IoErrorKind Found
  | [], at_ =>
    match os.view at_ with
    | none => .error .notFound
    | some obj => .ok (.entry at_ obj)
  | c :: cs, at_ =>
    match os.view at_ with
    | none => .error .notFound
    | some (.inl _) => .error .notADirectory
    | some (.inr mode) =>
      if os.may mode ownerSearch = false then .error .permissionDenied
      else
        match c with
        | .cur => walkWith os follow jump cs at_
        | .parent => walkWith os follow jump cs at_.dropLast
        | .normal name =>
          match os.view (at_ ++ [name]) with
          | none => if cs = [] then .ok (.missing (at_ ++ [name])) else .error .notFound
          | some (.inl (.symlink target)) =>
            if cs = [] ∧ follow = false then .ok (.entry (at_ ++ [name]) (.inl (.symlink target)))
            else jump (targetComps target ++ cs) (if target.abs then [] else at_)
          | some _ => walkWith os follow jump cs (at_ ++ [name])

/-- With a number of links that may be followed. -/
def walk (os : Os) (follow : Bool) : ℕ → List Comp → Loc → Except IoErrorKind Found
  | 0 => walkWith os follow fun _ _ => .error .filesystemLoop
  | links + 1 => walkWith os follow (walk os follow links)

/-- More links than this are `ELOOP`. -/
def maxLinks : ℕ := 40

/-- Where a path leads. An empty path leads nowhere. -/
def resolve (os : Os) (follow : Bool) (p : Path) : Except IoErrorKind Found :=
  if p.isEmpty then .error .notFound
  else walk os follow maxLinks (kernelComps p) (if p.abs then [] else os.cwd)

/-- The object a path names; a slash at its end asks for a directory. -/
def lookup (os : Os) (follow : Bool) (p : Path) : Except IoErrorKind (Loc × Obj) :=
  match os.resolve (follow || p.slash) p with
  | .error e => .error e
  | .ok (.missing _) => .error .notFound
  | .ok (.entry loc obj) =>
    if p.slash = true ∧ obj.isLeft = true then .error .notADirectory else .ok (loc, obj)

/-- The directory a name is in can be changed. -/
def mayChange (os : Os) (loc : Loc) : Bool :=
  match os.view loc.dropLast with
  | some (.inr mode) => os.may mode ownerWrite && os.may mode ownerSearch
  | _ => false

/-! ### What a call does -/

/-- The permission bits of a new object, less those of the umask. -/
def masked (os : Os) (mode : ℕ) : ℕ := mode &&& (0o7777 ^^^ os.umask)

/-- `mkdir`. -/
def mkdir (os : Os) (p : Path) : Except IoErrorKind Os :=
  match os.resolve false p with
  | .error e => .error e
  | .ok (.entry _ _) => .error .alreadyExists
  | .ok (.missing loc) =>
    if os.mayChange loc then .ok (os.withDir loc (os.masked 0o777)) else .error .permissionDenied

/-- A new handle. -/
def addHandle (os : Os) (h : Handle) : ℕ × Os :=
  (os.handles.length, { os with handles := os.handles ++ [h] })

/-- A handle on something that is not in the tree: what is written to a device
shows nowhere. -/
def deviceHandle (os : Os) : ℕ × Os :=
  { os with orphans := os.orphans ++ [[]] }.addHandle ⟨.inr os.orphans.length, 0⟩

/-- The process takes the file's owner. -/
def setuid : ℕ := 0o4000

/-- The process takes the file's group. -/
def setgid : ℕ := 0o2000

/-- The group may execute the file. -/
def groupExecute : ℕ := 0o010

/-- The permission bits a file is left with when its contents are changed. -/
def clearedBits (os : Os) (mode : ℕ) : ℕ :=
  if os.privileged then mode
  else mode ^^^ (mode &&& if mode &&& groupExecute = 0 then setuid else setuid ||| setgid)

/-- An empty file is made where nothing is, and opened. -/
def createFile (os : Os) (loc : Loc) (mode : ℕ) : Except IoErrorKind (ℕ × Os) :=
  if os.mayChange loc then
    .ok ((os.withLeaf loc (.file (os.masked mode) [])).addHandle ⟨.inl loc, 0⟩)
  else .error .permissionDenied

/-- `open` with `O_WRONLY`, `O_CREAT` and `O_TRUNC`. -/
def openWrite (os : Os) (p : Path) (mode : ℕ) : Except IoErrorKind (ℕ × Os) :=
  match os.resolve true p with
  | .error e => .error e
  | .ok (.entry _ (.inr _)) => .error .isADirectory
  | .ok (.entry loc (.inl (.file m _))) =>
    if p.slash then .error .isADirectory
    else if os.may m ownerWrite then .ok ((os.withLeaf loc (.file (os.clearedBits m) [])).addHandle ⟨.inl loc, 0⟩)
    else .error .permissionDenied
  | .ok (.entry _ (.inl (.other m))) =>
    if p.slash then .error .isADirectory
    else if os.may m ownerWrite then .ok os.deviceHandle
    else .error .permissionDenied
  | .ok (.entry _ (.inl (.symlink _))) => .error .filesystemLoop
  | .ok (.missing loc) => if p.slash then .error .isADirectory else os.createFile loc mode

/-- `open` with `O_WRONLY`, `O_CREAT` and `O_EXCL`. -/
def createNew (os : Os) (p : Path) (mode : ℕ) : Except IoErrorKind (ℕ × Os) :=
  match os.resolve false p with
  | .error e => .error e
  | .ok (.entry _ _) => .error .alreadyExists
  | .ok (.missing loc) => if p.slash then .error .isADirectory else os.createFile loc mode

/-- `open` with `O_RDONLY`. -/
def openRead (os : Os) (p : Path) : Except IoErrorKind (ℕ × Os) :=
  match os.lookup true p with
  | .error e => .error e
  | .ok (loc, .inl (.file m _)) =>
    if os.may m ownerRead then .ok (os.addHandle ⟨.inl loc, 0⟩) else .error .permissionDenied
  | .ok (_, .inr _) => .error .isADirectory
  | .ok (_, .inl _) => .error .other

/-- The contents behind a handle. -/
def contentOf (os : Os) (h : Handle) : Option Bytes :=
  match h.file with
  | .inl loc =>
    match os.view loc with
    | some (.inl (.file _ content)) => some content
    | _ => none
  | .inr k => os.orphans[k]?

/-- An open file changes. -/
def setHandle (os : Os) (fd : ℕ) (h : Handle) : Os := { os with handles := os.handles.set fd h }

/-- `read` from where the open file is. -/
def read (os : Os) (fd n : ℕ) : Except IoErrorKind (Bytes × Os) :=
  match os.handles[fd]? with
  | none => .error .other
  | some h =>
    match os.contentOf h with
    | none => .error .other
    | some content =>
      let data := (content.drop h.offset).take n
      .ok (data, os.setHandle fd { h with offset := h.offset + data.length })

/-- `data` written over `content` from an offset on. -/
def overwrite (content : Bytes) (offset : ℕ) (data : Bytes) : Bytes :=
  resize content offset ++ data ++ content.drop (offset + data.length)

/-- The contents behind a handle replaced. -/
def setContent (os : Os) (h : Handle) (content : Bytes) : Os :=
  match h.file with
  | .inl loc =>
    match os.view loc with
    | some (.inl (.file mode _)) => os.withLeaf loc (.file (os.clearedBits mode) content)
    | _ => os
  | .inr k => { os with orphans := os.orphans.set k content }

/-- A write of no bytes changes nothing. -/
def write (os : Os) (fd : ℕ) (data : Bytes) : Except IoErrorKind Os :=
  match os.handles[fd]? with
  | none => .error .other
  | some h =>
    match os.contentOf h with
    | none => .error .other
    | some content =>
      if data = [] then .ok os
      else
        .ok ((os.setContent h (overwrite content h.offset data)).setHandle fd
          { h with offset := h.offset + data.length })

/-- The same object with other permission bits. -/
def withMode (mode : ℕ) : Tree → Tree
  | .leaf (.file _ content) => .leaf (.file mode content)
  | .leaf (.symlink target) => .leaf (.symlink target)
  | .leaf (.other _) => .leaf (.other mode)
  | .dir _ children => .dir mode children

theorem ordered_withMode (mode : ℕ) : ∀ {t : Tree}, t.Ordered → (withMode mode t).Ordered
  | .leaf (.file _ _), _ | .leaf (.symlink _), _ | .leaf (.other _), _ => .ofLeaf _
  | .dir _ _, .ofDir _ _ h hcs => .ofDir _ _ h hcs

/-- The subtree at a place. -/
def sub (os : Os) (l : Loc) : Option { t : Tree // t.Ordered } :=
  (os.tree.sub l).pmap (fun t h => ⟨t, h⟩) fun _ h => os.ordered.sub h

/-- `chmod`: the links are followed. -/
def chmod (os : Os) (p : Path) (mode : ℕ) : Except IoErrorKind Os :=
  match os.lookup true p with
  | .error e => .error e
  | .ok (loc, _) =>
    .ok (os.put loc ((os.sub loc).map fun t => ⟨withMode mode t.1, ordered_withMode mode t.2⟩))

/-- The names in a directory, in their order. -/
def readDir (os : Os) (p : Path) : Except IoErrorKind (List Name) :=
  match os.lookup true p with
  | .error e => .error e
  | .ok (_, .inl _) => .error .notADirectory
  | .ok (loc, .inr mode) =>
    if os.may mode ownerRead then .ok (((os.tree.sub loc).elim [] DirTree.children).map Prod.fst)
    else .error .permissionDenied

/-- A file without a name from here on: its open handles keep it. -/
def orphan (os : Os) (loc : Loc) : Os :=
  match os.view loc with
  | some (.inl (.file _ content)) =>
    { os with
      handles := os.handles.map fun h =>
        if h.file = .inl loc then { h with file := .inr os.orphans.length } else h
      orphans := os.orphans ++ [content] }
  | _ => os

/-- The handles of what is moved go with it. -/
def moveHandles (os : Os) (source destination : Loc) : Os :=
  { os with handles := os.handles.map fun h =>
      match h.file with
      | .inl loc =>
        if source <+: loc then { h with file := .inl (destination ++ loc.drop source.length) } else h
      | .inr _ => h }

/-- The object at `source` becomes the one at `destination`. -/
def moveTree (os : Os) (source destination : Loc) : Os :=
  (((os.orphan destination).moveHandles source destination).put source none).put destination (os.sub source)

/-- A directory that goes to another one has its `..` changed, and so must be writable
itself. -/
def mayMove (os : Os) (source destination : Loc) : Obj → Bool
  | .inl _ => true
  | .inr mode => source.dropLast = destination.dropLast || os.may mode ownerWrite

/-- `rename`. -/
def rename (os : Os) (source destination : Path) : Except IoErrorKind Os :=
  match os.resolve false source, os.resolve false destination with
  | .error e, _ => .error e
  | .ok (.missing _), _ => .error .notFound
  | .ok (.entry _ _), .error e => .error e
  | .ok (.entry src obj), .ok (.missing dst) =>
    if source.fileName = none ∨ source.dot = true then .error .resourceBusy
    else if (source.slash || destination.slash) = true ∧ obj.isLeft = true then .error .notADirectory
    else if src <+: dst then .error .invalidInput
    else if os.mayChange src && os.mayChange dst && os.mayMove src dst obj then .ok (os.moveTree src dst)
    else .error .permissionDenied
  | .ok (.entry src obj), .ok (.entry dst obj') =>
    if source.fileName = none ∨ source.dot = true ∨ destination.fileName = none ∨ destination.dot = true then
      .error .resourceBusy
    else if (source.slash || destination.slash) = true ∧ obj.isLeft = true then .error .notADirectory
    else if src = dst then .ok os
    else if src <+: dst then .error .invalidInput
    else if dst <+: src then .error .directoryNotEmpty
    else if obj.isLeft = true ∧ obj'.isRight = true then .error .isADirectory
    else if obj.isRight = true ∧ obj'.isLeft = true then .error .notADirectory
    else if obj'.isRight = true ∧ (os.tree.sub dst).elim [] DirTree.children ≠ [] then .error .directoryNotEmpty
    else if os.mayChange src && os.mayChange dst && os.mayMove src dst obj then .ok (os.moveTree src dst)
    else .error .permissionDenied

/-- A link at the end is not followed, also if the path ends in a slash. -/
def unlink (os : Os) (p : Path) : Except IoErrorKind Os :=
  match os.resolve false p with
  | .error e => .error e
  | .ok (.missing _) => .error .notFound
  | .ok (.entry _ (.inr _)) => .error .isADirectory
  | .ok (.entry loc (.inl _)) =>
    if p.slash then .error .notADirectory
    else if os.mayChange loc then .ok ((os.orphan loc).put loc none)
    else .error .permissionDenied

/-- `rmdir`. -/
def rmdir (os : Os) (p : Path) : Except IoErrorKind Os :=
  match os.resolve false p with
  | .error e => .error e
  | .ok (.missing _) => .error .notFound
  | .ok (.entry _ (.inl _)) => .error .notADirectory
  | .ok (.entry loc (.inr _)) =>
    if p.fileName = none ∨ p.dot = true then .error .invalidInput
    else if (os.tree.sub loc).elim [] DirTree.children ≠ [] then .error .directoryNotEmpty
    else if os.mayChange loc then .ok (os.put loc none)
    else .error .permissionDenied

/-! ### Relative to an open directory -/

/-- With another directory to start in. -/
def startingIn (os : Os) (dir : Loc) : Os := { os with cwd := dir }

/-- A directory is opened, not through a link at the end. -/
def openDir (os : Os) (dir : Option Loc) (p : Path) : Except IoErrorKind Loc :=
  match (os.startingIn (dir.getD os.cwd)).lookup false p with
  | .error e => .error e
  | .ok (_, .inl _) => .error .notADirectory
  | .ok (loc, .inr mode) => if os.may mode ownerRead then .ok loc else .error .permissionDenied

/-- The names in an open directory. -/
def listDir (os : Os) (dir : Loc) : Except IoErrorKind (List (Name × Bool)) :=
  match os.tree.sub dir with
  | some (.dir _ children) => .ok (children.map fun c => (c.1, c.2.label.isRight))
  | _ => .error .notFound

/-- `unlinkat` from an open directory. -/
def unlinkAt (os : Os) (dir : Loc) (p : Path) : Except IoErrorKind Os :=
  ((os.startingIn dir).unlink p).map fun os' => os'.startingIn os.cwd

/-- `unlinkat` with `AT_REMOVEDIR` from an open directory. -/
def rmdirAt (os : Os) (dir : Loc) (p : Path) : Except IoErrorKind Os :=
  ((os.startingIn dir).rmdir p).map fun os' => os'.startingIn os.cwd

/-- An outcome as an answer, and the state after it. -/
def answer {α : Type} (os : Os) : Except IoErrorKind (α × Os) → Except IoError α × Os
  | .ok (a, os) => (.ok a, os)
  | .error e => (.error e.toError, os)

/-- A new state as an answer. -/
def done (os : Os) : Except IoErrorKind Os → Except IoError Unit × Os
  | .ok os => (.ok (), os)
  | .error e => (.error e.toError, os)

/-- What a call answers, and the state after it. A call that fails changes nothing. -/
def step : (c : Call) → Os → c.Answer × Os
  | .stat p, os => os.answer ((os.lookup true p).map fun r => (os.metadata r.1 r.2, os))
  | .lstat p, os => os.answer ((os.lookup false p).map fun r => (os.metadata r.1 r.2, os))
  | .mkdir p, os => os.done (os.mkdir p)
  | .openWrite p mode, os => os.answer (os.openWrite p mode)
  | .createNew p mode, os => os.answer (os.createNew p mode)
  | .openRead p, os => os.answer (os.openRead p)
  | .read fd n, os => os.answer (os.read fd n)
  | .write fd data, os => os.done (os.write fd data)
  | .chmod p mode, os => os.done (os.chmod p mode)
  | .readDir p, os => os.answer ((os.readDir p).map fun names => (names, os))
  | .rename source destination, os => os.done (os.rename source destination)
  | .unlink p, os => os.done (os.unlink p)
  | .rmdir p, os => os.done (os.rmdir p)
  | .openDir dir p, os => os.answer ((os.openDir dir p).map fun loc => (loc, os))
  | .listDir dir, os => os.answer ((os.listDir dir).map fun children => (children, os))
  | .unlinkAt dir p, os => os.done (os.unlinkAt dir p)
  | .rmdirAt dir p, os => os.done (os.rmdirAt dir p)

/-- An empty root directory, and root's process in it. -/
def fresh : Os where
  tree := .dir 0o755 []
  ordered := .ofDir _ _ List.Pairwise.nil (by simp)
  cwd := []
  umask := 0o022
  privileged := true
  handles := []
  orphans := []
  dirSize _ _ := 4096

end Os

end Rsdb
