/-
# Relative paths of entries, there and back

An entry of a batch carries its path below its root as one string.
`path_to_transfer_string` puts the components together with a slash between two,
`join_transfer_relative_path` reads the string as a path and pushes its components
on a base one by one. Both refuse a component that is no name. The client and the
daemon have a copy of each; the copies are the functions the other modules use
(`Client.joinTransferRelativePath_eq` and its like).

A string is refused exactly when it is absolute, has a `..` between two slashes, or
starts with a `.` of its own (`joinTransferRelativePath_isOk_iff`); any other `.` is
no component. So what is returned has names only behind the base
(`transfer_paths_exact`).
-/
import Rsdb.Os.PathText
import Rsdb.Transfer.Manifest

namespace Rsdb

/-! ### The two functions, component by component -/

/-- `std::path::Component`. -/
inductive Component where
  | rootDir
  | of (comp : Comp)
  deriving DecidableEq

/-- `components`. -/
def Path.components (p : Path) : List Component := (if p.abs then [.rootDir] else []) ++ p.comps.map .of

/-- The loop of `join_transfer_relative_path`. -/
def pushComponents (relativePath : Str) : List Component → Path → Except AnyhowError Path
  | [], resolved => .ok resolved
  | .of (.normal part) :: components, resolved => pushComponents relativePath components (resolved.push part)
  | _ :: _, _ => .error (.bail (str "invalid transfer path: " ++ relativePath))

/-- The loop of `path_to_transfer_string`. -/
def transferParts (path : Path) : List Component → List Str → Except AnyhowError (List Str)
  | [], parts => .ok parts
  | .of (.normal part) :: components, parts => transferParts path components (parts ++ [utf8Lossy part.1])
  | _ :: _, _ => .error (.bail (str "invalid transfer path: " ++ path.display))

namespace Client

/-- The path of an entry below the path of its root. -/
def joinTransferRelativePath (base : Path) (relativePath : Str) : Except AnyhowError Path :=
  if relativePath = [] then .ok base
  else pushComponents relativePath (Path.ofStr relativePath).components base

/-- A relative path as an entry has it. -/
def pathToTransferString (path : Path) : Except AnyhowError Str :=
  if path.isEmpty then .ok []
  else (transferParts path path.components []).map Path.joinSlash

end Client

namespace Daemon

/-- The client's own copy. -/
def joinTransferRelativePath (base : Path) (relativePath : Str) : Except AnyhowError Path :=
  if relativePath = [] then .ok base
  else pushComponents relativePath (Path.ofStr relativePath).components base

/-- The client's own copy. -/
def pathToTransferString (path : Path) : Except AnyhowError Str :=
  if path.isEmpty then .ok []
  else (transferParts path path.components []).map Path.joinSlash

end Daemon

/-! ### The copies are the functions of the other modules -/

theorem pushComponents_eq (relativePath : Str) : ∀ (comps : List Comp) (base : Path),
    pushComponents relativePath (comps.map .of) base =
      match plainNames comps with
      | some names => .ok (names.foldl Path.push base)
      | none => .error (.bail (str "invalid transfer path: " ++ relativePath))
  | [], base => rfl
  | .cur :: comps, base => rfl
  | .parent :: comps, base => rfl
  | .normal name :: comps, base => by
    rw [List.map_cons, pushComponents, pushComponents_eq relativePath comps, plainNames]
    cases plainNames comps <;> rfl

theorem transferParts_eq (path : Path) : ∀ (comps : List Comp) (parts : List Str),
    transferParts path (comps.map .of) parts =
      match plainNames comps with
      | some names => .ok (parts ++ names.map fun name => utf8Lossy name.1)
      | none => .error (.bail (str "invalid transfer path: " ++ path.display))
  | [], parts => by simp [transferParts, plainNames]
  | .cur :: comps, parts => rfl
  | .parent :: comps, parts => rfl
  | .normal name :: comps, parts => by
    rw [List.map_cons, transferParts, transferParts_eq path comps, plainNames]
    cases plainNames comps with
    | none => rfl
    | some names => simp

theorem Client.joinTransferRelativePath_eq (base : Path) (relativePath : Str) :
    Client.joinTransferRelativePath base relativePath = Rsdb.joinTransferRelativePath base relativePath := by
  unfold Client.joinTransferRelativePath Rsdb.joinTransferRelativePath relativeNames Path.components
  split
  · rfl
  · cases (Path.ofStr relativePath).abs with
    | true => rfl
    | false =>
      rw [if_neg Bool.false_ne_true, if_neg Bool.false_ne_true, List.nil_append]
      cases hnames : plainNames (Path.ofStr relativePath).comps with
      | none => simp only [pushComponents_eq, hnames]
      | some names => simp only [pushComponents_eq, hnames]

theorem Client.pathToTransferString_eq (path : Path) :
    Client.pathToTransferString path = Rsdb.pathToTransferString path := by
  unfold Client.pathToTransferString Rsdb.pathToTransferString Path.components
  split
  · rfl
  · cases path.abs with
    | true => rfl
    | false =>
      rw [if_neg Bool.false_ne_true, List.nil_append]
      cases hnames : plainNames path.comps with
      | none => simp only [transferParts_eq, hnames, Except.map]
      | some names => simp only [transferParts_eq, hnames, Except.map, List.nil_append]

theorem Daemon.joinTransferRelativePath_eq (base : Path) (relativePath : Str) :
    Daemon.joinTransferRelativePath base relativePath = Rsdb.joinTransferRelativePath base relativePath :=
  Client.joinTransferRelativePath_eq base relativePath

theorem Daemon.pathToTransferString_eq (path : Path) :
    Daemon.pathToTransferString path = Rsdb.pathToTransferString path :=
  Client.pathToTransferString_eq path

/-! ### What is refused -/

theorem plainNames_isSome_iff {comps : List Comp} : (plainNames comps).isSome = true ↔ .cur ∉ comps ∧ .parent ∉ comps := by
  induction comps with
  | nil => simp [plainNames]
  | cons c comps ih =>
    cases c with
    | cur => simp [plainNames]
    | parent => simp [plainNames]
    | normal name => simp [plainNames, ih]

/-- The pieces of a string that are components. -/
def pieceComps (s : Str) : List Comp := (splitSlash s).filterMap Comp.ofPiece

theorem Comp.ofPiece_eq_parent {piece : Str} : Comp.ofPiece piece = some .parent ↔ piece = dotDotName := by
  constructor
  · intro h
    unfold Comp.ofPiece at h
    split_ifs at h with hcur hparent hname
    · cases h
    · exact hparent
    · cases h
  · rintro rfl
    rfl

theorem parent_mem_pieceComps {s : Str} : .parent ∈ pieceComps s ↔ dotDotName ∈ splitSlash s := by
  rw [pieceComps, List.mem_filterMap]
  constructor
  · rintro ⟨piece, hpiece, hof⟩
    exact Comp.ofPiece_eq_parent.mp hof ▸ hpiece
  · exact fun h => ⟨dotDotName, h, rfl⟩

/-- Only a leading `.` is a component of a relative path. -/
theorem cur_mem_dropCur {comps : List Comp} : .cur ∈ dropCur false comps ↔ comps.head? = some .cur := by
  cases comps with
  | nil => simp [dropCur]
  | cons c comps => simp [dropCur, eq_comm]

theorem parent_mem_dropCur {abs : Bool} {comps : List Comp} : .parent ∈ dropCur abs comps ↔ .parent ∈ comps := by
  cases comps with
  | nil => simp [dropCur]
  | cons c comps =>
    by_cases h : abs = true ∧ c = .cur
    · rw [dropCur, if_pos h]
      simp [h.2]
    · rw [dropCur, if_neg h]
      simp

/-- A string is taken exactly when it is not absolute, has no `..`, and starts with
no `.`. -/
theorem relativeNames_isSome_iff (s : Str) : (relativeNames s).isSome = true ↔
    s.head? ≠ some slashByte ∧ dotDotName ∉ splitSlash s ∧ (pieceComps s).head? ≠ some .cur := by
  have habs : (Path.ofStr s).abs = true ↔ s.head? = some slashByte := decide_eq_true_iff
  have hcomps : (Path.ofStr s).comps = dropCur (Path.ofStr s).abs (pieceComps s) := rfl
  unfold relativeNames
  rw [hcomps]
  cases hs : (Path.ofStr s).abs with
  | true => simp [habs.mp hs]
  | false =>
    have hrel : s.head? ≠ some slashByte := fun h => by
      rw [habs.mpr h] at hs
      cases hs
    rw [if_neg Bool.false_ne_true, plainNames_isSome_iff, cur_mem_dropCur, parent_mem_dropCur, parent_mem_pieceComps]
    exact ⟨fun h => ⟨hrel, h.2, h.1⟩, fun h => ⟨h.2.2, h.2.1⟩⟩

theorem joinTransferRelativePath_eq_ok {base p : Path} {s : Str} : joinTransferRelativePath base s = .ok p ↔
    ∃ names, relativeNames s = some names ∧ names.foldl Path.push base = p := by
  unfold joinTransferRelativePath
  by_cases hs : s = []
  · have hnil : relativeNames [] = some [] := rfl
    simp [hs, hnil]
  · cases relativeNames s with
    | none => simp [hs]
    | some names => simp [hs]

theorem joinTransferRelativePath_isOk_iff (base : Path) (s : Str) : (∃ p, joinTransferRelativePath base s = .ok p) ↔
    s.head? ≠ some slashByte ∧ dotDotName ∉ splitSlash s ∧ (pieceComps s).head? ≠ some .cur := by
  rw [← relativeNames_isSome_iff, Option.isSome_iff_exists]
  constructor
  · rintro ⟨p, hp⟩
    obtain ⟨names, hnames, -⟩ := joinTransferRelativePath_eq_ok.mp hp
    exact ⟨names, hnames⟩
  · rintro ⟨names, hnames⟩
    exact ⟨_, joinTransferRelativePath_eq_ok.mpr ⟨names, hnames, rfl⟩⟩

/-! ### What is returned -/

namespace Path

/-- The path is the base, and names only behind it. -/
structure Extends (p base : Path) (names : List Name) : Prop where
  abs : p.abs = base.abs
  comps : p.comps = base.comps ++ names.map .normal

theorem extends_foldl_push (base : Path) (names : List Name) : (names.foldl push base).Extends base names :=
  ⟨(comps_push names base).1, (comps_push names base).2⟩

end Path

/-- **Relative paths survive, and none climbs.** The text of a relative path of
names that are texts, joined to a base, is the base with those names behind it.
Whatever is joined, what is returned is the base with names only behind it, and a
string that is absolute or has a `..` is refused. The copies of the client and of
the daemon agree. -/
theorem transfer_paths_exact :
    (∀ (base rel : Path) (names : List Name), rel.abs = false → rel.comps = names.map .normal →
      (∀ name ∈ names, isUtf8 name.1 = true) →
      ∃ s p, Daemon.pathToTransferString rel = .ok s ∧ Daemon.joinTransferRelativePath base s = .ok p ∧
        p.Extends base names) ∧
    (∀ (base : Path) (s : Str),
      ((∃ err, Daemon.joinTransferRelativePath base s = .error err) ∨
        ∃ names p, Daemon.joinTransferRelativePath base s = .ok p ∧ p.Extends base names) ∧
      (s.head? = some slashByte ∨ dotDotName ∈ splitSlash s →
        ∃ err, Daemon.joinTransferRelativePath base s = .error err)) ∧
    (∀ (base : Path) (s : Str), Client.joinTransferRelativePath base s = Daemon.joinTransferRelativePath base s) ∧
    ∀ path : Path, Client.pathToTransferString path = Daemon.pathToTransferString path := by
  refine ⟨fun base rel names habs hcomps htext => ?_, fun base s => ⟨?_, fun hclimbs => ?_⟩, fun base s => ?_, fun path => ?_⟩
  · have hstring : pathToTransferString rel = .ok (Path.joinSlash (names.map Subtype.val)) := by
      rw [pathToTransferString_of_names habs hcomps, map_utf8Lossy htext]
    refine ⟨_, _, (Daemon.pathToTransferString_eq rel).trans hstring, ?_, Path.extends_foldl_push base names⟩
    rw [Daemon.joinTransferRelativePath_eq]
    exact joinTransferRelativePath_eq_ok.mpr ⟨names, relativeNames_joinSlash names, rfl⟩
  · rw [Daemon.joinTransferRelativePath_eq]
    cases hjoin : joinTransferRelativePath base s with
    | error err => exact Or.inl ⟨err, rfl⟩
    | ok p =>
      obtain ⟨names, -, rfl⟩ := joinTransferRelativePath_eq_ok.mp hjoin
      exact Or.inr ⟨names, _, rfl, Path.extends_foldl_push base names⟩
  · rw [Daemon.joinTransferRelativePath_eq]
    cases hjoin : joinTransferRelativePath base s with
    | error err => exact ⟨err, rfl⟩
    | ok p =>
      obtain ⟨habs, hparent, -⟩ := (joinTransferRelativePath_isOk_iff base s).mp ⟨p, hjoin⟩
      exact (hclimbs.elim habs hparent).elim
  · rw [Client.joinTransferRelativePath_eq, Daemon.joinTransferRelativePath_eq]
  · rw [Client.pathToTransferString_eq, Daemon.pathToTransferString_eq]

end Rsdb
