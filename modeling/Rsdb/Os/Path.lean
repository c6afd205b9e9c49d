/-
# Paths

A path is its text, as the code holds it and shows it. `std::path` and the kernel
read it as components: repeated slashes are one, and a `.` that is not the first
component of a relative path says nothing (`comps`). Besides, they see whether it
starts at the root (`abs`), whether it ends in a slash (`slash`), and whether its
last segment is a dropped `.` (`dot`); the last two make the kernel ask for a
directory.

Each operation on paths is one on their texts, with what it does to the components
beside it: `push` and `join` add them at the end, `parent` takes the last one away.
`Path.lexical` resolves `.` and `..` without looking at a filesystem, and
`Path.Within` says that one path is at or below another after that.
-/
import Rsdb.Proto.Control
import Mathlib.Data.List.DropRight
import Mathlib.Data.List.Infix

namespace Rsdb

/-- `/`. -/
def slashByte : UInt8 := 47

/-- `.` -/
def dotName : Str := [46]

/-- `..` -/
def dotDotName : Str := [46, 46]

/-- What can name a directory entry: not empty, no slash, not `.` and not `..`. -/
def IsName (s : Str) : Prop := s ≠ [] ∧ slashByte ∉ s ∧ s ≠ dotName ∧ s ≠ dotDotName

instance : DecidablePred IsName := fun s => by unfold IsName; infer_instance

/-- The name of a file or directory. -/
abbrev Name := { s : Str // IsName s }

/-- A component, other than the root. -/
inductive Comp where
  | cur | parent | normal (name : Name)
  deriving DecidableEq

/-! ### Between the slashes -/

/-- The pieces between slashes. -/
def splitSlash : Str → List Str
  | [] => [[]]
  | b :: s =>
    if b = slashByte then [] :: splitSlash s
    else match splitSlash s with
      | [] => [[b]]
      | p :: ps => (b :: p) :: ps

/-- The component a piece stands for; nothing between two slashes is none. -/
def Comp.ofPiece (piece : Str) : Option Comp :=
  if piece = dotName then some .cur
  else if piece = dotDotName then some .parent
  else if h : IsName piece then some (.normal ⟨piece, h⟩)
  else none

/-- A leading `.` of a relative path is a component, any other one is not. -/
def dropCur (abs : Bool) : List Comp → List Comp
  | [] => []
  | c :: cs => if abs = true ∧ c = .cur then cs.filter (· ≠ .cur) else c :: cs.filter (· ≠ .cur)

/-- A path, as `std::path` holds it. -/
@[ext] structure Path where
  text : Str
  deriving DecidableEq

namespace Path

/-- `Path::new`. -/
def ofStr (s : Str) : Path := ⟨s⟩

/-- `display`, of a path that is a text. -/
def display (p : Path) : Str := p.text

@[simp] theorem ofStr_display (p : Path) : ofStr p.display = p := rfl

/-! ### What the text says -/

/-- The components and the dots between its slashes. -/
def pieces (p : Path) : List Comp := (splitSlash p.text).filterMap Comp.ofPiece

/-- It starts at the root. -/
def abs (p : Path) : Bool := p.text.head? = some slashByte

/-- The components of the path. -/
def comps (p : Path) : List Comp := dropCur p.abs p.pieces

/-- It ends in a slash. -/
def slash (p : Path) : Bool := p.text.getLast? = some slashByte

/-- It ends in a `.` that is no component. -/
def dot (p : Path) : Bool := p.pieces.getLast? = some .cur ∧ (p.abs = true ∨ p.pieces.length ≠ 1)

/-! ### The operations of `std::path` -/

/-- The pieces with a slash between two. -/
def joinSlash : List Str → Str
  | [] => []
  | [p] => p
  | p :: ps => p ++ slashByte :: joinSlash ps

/-- The empty path. -/
def empty : Path := ⟨[]⟩

/-- `Path::new(".")`. -/
def here : Path := ⟨dotName⟩

/-- `as_os_str().is_empty()`. -/
def isEmpty (p : Path) : Bool := p.text = []

/-- One text after the other, with a slash between them if there is none and something before it. -/
def joinText (s t : Str) : Str := if s = [] ∨ s.getLast? = some slashByte then s ++ t else s ++ slashByte :: t

/-- `push` of one component. -/
def push (p : Path) (name : Name) : Path := ⟨joinText p.text name⟩

/-- `join`: an absolute path replaces. -/
def join (p q : Path) : Path := if q.abs then q else ⟨joinText p.text q.text⟩

/-- Without what says nothing at the end: nothing between two slashes, or a `.`. -/
def trimPieces (pieces : List Str) : List Str := pieces.rdropWhile fun piece => piece = [] ∨ piece = dotName

/-- The first piece with others after it; a first piece that is empty is the root. -/
def joinPieces (first : Str) (rest : List Str) : Str :=
  if first = [] ∧ rest = [] then [slashByte] else joinSlash (first :: rest)

/-- `parent`: without its last component, if it has one. -/
def parent (p : Path) : Option Path :=
  match splitSlash p.text with
  | [] => none
  | first :: rest =>
    if trimPieces rest ≠ [] then some ⟨joinPieces first (trimPieces (trimPieces rest).dropLast)⟩
    else if first ≠ [] then some empty
    else none

/-- `file_name`. -/
def fileName (p : Path) : Option Name :=
  match p.comps.getLast? with
  | some (.normal name) => some name
  | _ => none

/-- A path and up to `n` parents. -/
def upTo : ℕ → Path → List Path
  | 0, p => [p]
  | n + 1, p =>
    match p.parent with
    | none => [p]
    | some q => p :: upTo n q

/-- The path and its parents, innermost first, without the empty one: the paths
`create_dir_all` may create. -/
def ancestors (p : Path) : List Path := (upTo p.comps.length p).filter fun q => !q.isEmpty

/-- The relative path of some names. -/
def ofNames (names : List Name) : Path := ⟨joinSlash (names.map Subtype.val)⟩

theorem ofStr_joinSlash (names : List Name) : ofStr (joinSlash (names.map Subtype.val)) = ofNames names := rfl

/-! ### Splitting and joining -/

theorem splitSlash_ne_nil : ∀ s : Str, splitSlash s ≠ []
  | [] => List.cons_ne_nil _ _
  | b :: s => by
    unfold splitSlash
    split
    · exact List.cons_ne_nil _ _
    · split <;> exact List.cons_ne_nil _ _

theorem splitSlash_name {s : Str} (h : slashByte ∉ s) : splitSlash s = [s] := by
  induction s with
  | nil => rfl
  | cons b s ih =>
    obtain ⟨hb, hs⟩ := not_or.mp (mt List.mem_cons.mpr h)
    rw [splitSlash, if_neg (Ne.symm hb), ih hs]

/-- A slash parts the pieces. -/
theorem splitSlash_slash (s t : Str) : splitSlash (s ++ slashByte :: t) = splitSlash s ++ splitSlash t := by
  induction s with
  | nil =>
    rw [List.nil_append]
    simp only [splitSlash, ↓reduceIte, List.singleton_append]
  | cons b s ih =>
    rw [List.cons_append, splitSlash, splitSlash, ih]
    obtain ⟨p, ps, hp⟩ := List.exists_cons_of_ne_nil (splitSlash_ne_nil s)
    rw [hp]
    split <;> rfl

theorem splitSlash_append {s : Str} (h : slashByte ∉ s) (rest : Str) :
    splitSlash (s ++ slashByte :: rest) = s :: splitSlash rest := by
  rw [splitSlash_slash, splitSlash_name h, List.singleton_append]

theorem slash_not_mem_splitSlash : ∀ (s : Str), ∀ piece ∈ splitSlash s, slashByte ∉ piece
  | [], piece, hpiece => by
    rw [List.mem_singleton.mp hpiece]
    exact List.not_mem_nil
  | b :: s, piece, hpiece => by
    have ih := slash_not_mem_splitSlash s
    obtain ⟨first, pieces, hsplit⟩ := List.exists_cons_of_ne_nil (splitSlash_ne_nil s)
    unfold splitSlash at hpiece
    rw [hsplit] at hpiece ih
    split at hpiece
    · rcases List.mem_cons.mp hpiece with rfl | hpiece
      · exact List.not_mem_nil
      · exact ih piece hpiece
    · rename_i hb
      rcases List.mem_cons.mp hpiece with rfl | hpiece
      · exact List.not_mem_cons_of_ne_of_not_mem (Ne.symm hb) (ih first List.mem_cons_self)
      · exact ih piece (List.mem_cons_of_mem first hpiece)

/-- Pieces are read back from between the slashes. -/
theorem splitSlash_joinSlash : ∀ {pieces : List Str}, pieces ≠ [] → (∀ piece ∈ pieces, slashByte ∉ piece) →
    splitSlash (joinSlash pieces) = pieces
  | [p], _, h => splitSlash_name (h p List.mem_cons_self)
  | p :: q :: ps, _, h => by
    obtain ⟨hp, hrest⟩ := List.forall_mem_cons.mp h
    show splitSlash (p ++ slashByte :: joinSlash (q :: ps)) = _
    rw [splitSlash_append hp, splitSlash_joinSlash (List.cons_ne_nil q ps) hrest]

/-- A text starts with a slash where its first piece is empty and not all there is. -/
theorem head?_eq_slash_iff {s first : Str} {rest : List Str} (h : splitSlash s = first :: rest) :
    s.head? = some slashByte ↔ first = [] ∧ rest ≠ [] := by
  cases s with
  | nil =>
    cases h
    simp
  | cons b s =>
    obtain ⟨p, ps, hp⟩ := List.exists_cons_of_ne_nil (splitSlash_ne_nil s)
    rw [splitSlash, hp] at h
    split at h
    · rename_i hb
      cases h
      simp [hb]
    · rename_i hb
      cases h
      simp [hb]

theorem eq_nil_of_splitSlash {s : Str} (h : splitSlash s = [[]]) : s = [] := by
  cases s with
  | nil => rfl
  | cons b s =>
    obtain ⟨p, ps, hp⟩ := List.exists_cons_of_ne_nil (splitSlash_ne_nil s)
    rw [splitSlash, hp] at h
    split at h <;> cases h

/-- Something between slashes is a component. -/
theorem ofPiece_ne_none {piece : Str} (hne : piece ≠ []) (hslash : slashByte ∉ piece) : Comp.ofPiece piece ≠ none := by
  unfold Comp.ofPiece
  split_ifs with hcur hparent hname
  · exact Option.some_ne_none _
  · exact Option.some_ne_none _
  · exact Option.some_ne_none _
  · exact absurd ⟨hne, hslash, hcur, hparent⟩ hname

/-- What says something is a component that is no `.`. -/
theorem ofPiece_ne_cur {piece : Str} (hslash : slashByte ∉ piece) (h : ¬ (piece = [] ∨ piece = dotName)) :
    ∃ c, Comp.ofPiece piece = some c ∧ c ≠ .cur := by
  obtain ⟨hnil, hdot⟩ := not_or.mp h
  obtain ⟨c, hc⟩ := Option.ne_none_iff_exists'.mp (ofPiece_ne_none hnil hslash)
  refine ⟨c, hc, ?_⟩
  rintro rfl
  unfold Comp.ofPiece at hc
  rw [if_neg hdot] at hc
  split_ifs at hc <;> cases hc

theorem ofPiece_name (n : Name) : Comp.ofPiece n.1 = some (.normal n) := by
  rw [Comp.ofPiece, if_neg n.2.2.2.1, if_neg n.2.2.2.2, dif_pos n.2]

/-! ### The components -/

/-- What the pieces after the first one add. -/
def later (pieces : List Str) : List Comp := (pieces.filterMap Comp.ofPiece).filter (· ≠ .cur)

theorem dropCur_true (cs : List Comp) : dropCur true cs = cs.filter (· ≠ .cur) := by
  cases cs with
  | nil => rfl
  | cons c cs =>
    by_cases hc : c = .cur
    · rw [dropCur, if_pos ⟨rfl, hc⟩, hc]
      rfl
    · rw [dropCur, if_neg fun h => hc h.2, List.filter_cons_of_pos (by simpa using hc)]

theorem dropCur_append (abs : Bool) {cs : List Comp} (hne : cs ≠ []) (ds : List Comp) :
    dropCur abs (cs ++ ds) = dropCur abs cs ++ ds.filter (· ≠ .cur) := by
  obtain ⟨c, cs, rfl⟩ := List.exists_cons_of_ne_nil hne
  simp only [List.cons_append, dropCur, List.filter_append]
  split <;> rfl

/-- The components, by the pieces of the text. -/
theorem comps_eq {p : Path} {first : Str} {rest : List Str} (h : splitSlash p.text = first :: rest) :
    p.comps = (Comp.ofPiece first).toList ++ later rest := by
  have hpieces : p.pieces = (Comp.ofPiece first).toList ++ rest.filterMap Comp.ofPiece := by
    rw [pieces, h, List.filterMap_cons]
    cases Comp.ofPiece first <;> rfl
  have habs : p.abs = decide (first = [] ∧ rest ≠ []) := by
    rw [abs, decide_eq_decide]
    exact head?_eq_slash_iff h
  rw [comps, hpieces]
  by_cases hfirst : first = []
  · subst hfirst
    cases rest with
    | nil => rfl
    | cons piece rest =>
      rw [habs, decide_eq_true ⟨rfl, List.cons_ne_nil _ _⟩]
      exact dropCur_true _
  · have hslash := slash_not_mem_splitSlash p.text first (h ▸ List.mem_cons_self)
    obtain ⟨c, hc⟩ := Option.ne_none_iff_exists'.mp (ofPiece_ne_none hfirst hslash)
    rw [habs, decide_eq_false fun h => hfirst h.1, hc]
    simp [dropCur, later]

/-- Where there is nothing between the slashes there are no other bytes. -/
theorem text_of_pieces {p : Path} (h : p.pieces = []) : p.text = [] ∨ p.abs = true := by
  obtain ⟨first, rest, hsplit⟩ := List.exists_cons_of_ne_nil (splitSlash_ne_nil p.text)
  have hfirst : first = [] := by
    by_contra hne
    refine ofPiece_ne_none hne (slash_not_mem_splitSlash p.text first (hsplit ▸ List.mem_cons_self)) ?_
    exact List.filterMap_eq_nil_iff.mp h first (hsplit ▸ List.mem_cons_self)
  subst hfirst
  cases rest with
  | nil => exact Or.inl (eq_nil_of_splitSlash hsplit)
  | cons piece rest => exact Or.inr (decide_eq_true ((head?_eq_slash_iff hsplit).mpr ⟨rfl, List.cons_ne_nil _ _⟩))

theorem isEmpty_iff {p : Path} : p.isEmpty = true ↔ p.abs = false ∧ p.comps = [] := by
  rw [isEmpty, decide_eq_true_eq]
  constructor
  · intro h
    obtain ⟨text⟩ := p
    obtain rfl : text = [] := h
    exact ⟨rfl, rfl⟩
  · rintro ⟨habs, hcomps⟩
    rw [comps, habs] at hcomps
    have hpieces : p.pieces = [] := by
      cases hp : p.pieces with
      | nil => rfl
      | cons c cs =>
        rw [hp] at hcomps
        simp [dropCur] at hcomps
    refine (text_of_pieces hpieces).resolve_right ?_
    rw [habs]
    exact Bool.false_ne_true

theorem isEmpty_eq (p : Path) : p.isEmpty = (!p.abs && p.comps.isEmpty) := by
  rw [Bool.eq_iff_iff, isEmpty_iff]
  simp

/-! ### One path after another -/

theorem pieces_joinText (s t : Str) : (ofStr (joinText s t)).pieces = (ofStr s).pieces ++ (ofStr t).pieces := by
  unfold joinText
  split
  · rename_i h
    rcases h with rfl | h
    · rfl
    · obtain ⟨s, rfl⟩ := List.getLast?_eq_some_iff.mp h
      have hlast : (splitSlash (s ++ [slashByte])).filterMap Comp.ofPiece = (splitSlash s).filterMap Comp.ofPiece := by
        rw [splitSlash_slash, List.filterMap_append]
        exact List.append_nil _
      rw [List.append_assoc, List.singleton_append]
      show (splitSlash (s ++ slashByte :: t)).filterMap _ = (splitSlash (s ++ [slashByte])).filterMap _ ++ _
      rw [hlast, splitSlash_slash, List.filterMap_append]
      rfl
  · show (splitSlash (s ++ slashByte :: t)).filterMap _ = _
    rw [splitSlash_slash, List.filterMap_append]
    rfl

theorem abs_joinText (s : Str) {t : Str} (ht : (ofStr t).abs = false) : (ofStr (joinText s t)).abs = (ofStr s).abs := by
  unfold joinText
  rcases eq_or_ne s [] with rfl | hne
  · rw [if_pos (Or.inl rfl)]
    exact ht
  · obtain ⟨b, s, rfl⟩ := List.exists_cons_of_ne_nil hne
    split <;> rfl

theorem slash_joinText (s : Str) {t : Str} (ht : t ≠ []) : (ofStr (joinText s t)).slash = (ofStr t).slash := by
  have hlast : (joinText s t).getLast? = t.getLast? := by
    unfold joinText
    split
    · exact List.getLast?_append_of_ne_nil _ ht
    · rw [List.getLast?_append_of_ne_nil _ (List.cons_ne_nil _ _), List.getLast?_cons_of_ne_nil ht]
  rw [slash, slash, ofStr, hlast, ofStr]

theorem joinText_ne_nil (s : Str) {t : Str} (ht : t ≠ []) : joinText s t ≠ [] := by
  unfold joinText
  split <;> simp [ht]

/-! ### A name after a path -/

section

variable (p : Path) (n : Name)

theorem name_pieces : (ofStr n.1).pieces = [.normal n] := by
  show (splitSlash n.1).filterMap _ = _
  rw [splitSlash_name n.2.2.1, List.filterMap_cons, ofPiece_name]
  rfl

theorem name_abs : (ofStr n.1).abs = false :=
  decide_eq_false fun h => n.2.2.1 (List.mem_of_mem_head? h)

theorem name_slash : (ofStr n.1).slash = false :=
  decide_eq_false fun h => n.2.2.1 (List.mem_of_getLast? h)

theorem push_pieces : (p.push n).pieces = p.pieces ++ [.normal n] :=
  (pieces_joinText p.text n).trans (by rw [name_pieces]; rfl)

@[simp] theorem push_abs : (p.push n).abs = p.abs := abs_joinText p.text (name_abs n)

@[simp] theorem push_slash : (p.push n).slash = false := (slash_joinText p.text n.2.1).trans (name_slash n)

@[simp] theorem push_comps : (p.push n).comps = p.comps ++ [.normal n] := by
  rw [comps, push_abs, push_pieces, comps]
  rcases eq_or_ne p.pieces [] with hnil | hne
  · rw [hnil]
    simp [dropCur]
  · rw [dropCur_append p.abs hne]
    simp

@[simp] theorem push_dot : (p.push n).dot = false := by
  rw [dot, push_pieces]
  simp

@[simp] theorem push_isEmpty : (p.push n).isEmpty = false := decide_eq_false (joinText_ne_nil p.text n.2.1)

@[simp] theorem push_fileName : (p.push n).fileName = some n := by simp [fileName]

end

theorem comps_push (names : List Name) : ∀ p : Path,
    (names.foldl Path.push p).abs = p.abs ∧ (names.foldl Path.push p).comps = p.comps ++ names.map .normal := by
  induction names with
  | nil => simp
  | cons n names ih =>
    intro p
    obtain ⟨habs, hcomps⟩ := ih (p.push n)
    rw [List.foldl_cons]
    exact ⟨habs.trans (push_abs p n), by rw [hcomps]; simp⟩

/-- The last of them ends the path. -/
theorem foldl_push_ends (p : Path) {names : List Name} (hne : names ≠ []) :
    (names.foldl push p).slash = false ∧ (names.foldl push p).dot = false ∧ (names.foldl push p).isEmpty = false := by
  obtain ⟨front, n, rfl⟩ := (List.eq_nil_or_concat names).resolve_left hne
  simp

/-- Names pushed in turn are pushed with the slashes between them. -/
theorem foldl_push_text (p : Path) : ∀ {names : List Name}, names ≠ [] →
    (names.foldl push p).text = joinText p.text (joinSlash (names.map Subtype.val))
  | [n], _ => rfl
  | n :: m :: names, _ => by
    have hne : (p.push n).text ≠ [] := joinText_ne_nil p.text n.2.1
    have hslash : (p.push n).text.getLast? ≠ some slashByte := of_decide_eq_false (push_slash p n)
    have happend : ∀ rest, joinText p.text n.1 ++ rest = joinText p.text (n.1 ++ rest) := fun rest => by
      unfold joinText
      split <;> simp
    rw [List.foldl_cons, foldl_push_text (p.push n) (List.cons_ne_nil m names), joinText,
      if_neg (not_or.mpr ⟨hne, hslash⟩)]
    exact happend _

theorem join_ofNames (p : Path) {names : List Name} (hne : names ≠ []) : p.join (ofNames names) = names.foldl push p := by
  have habs : (ofNames names).abs = false := by
    have hrel : (names.foldl push empty).abs = false := (comps_push names empty).1
    rwa [Path.ext (foldl_push_text empty hne)] at hrel
  rw [join, habs]
  exact Path.ext (foldl_push_text p hne).symm

theorem ofNames_eq (names : List Name) : ofNames names = names.foldl push empty := by
  rcases eq_or_ne names [] with rfl | hne
  · rfl
  · exact Path.ext (foldl_push_text empty hne).symm

theorem ofNames_push (names : List Name) (n : Name) : (ofNames names).push n = ofNames (names ++ [n]) := by
  rw [ofNames_eq, ofNames_eq, List.foldl_append]
  rfl

section

variable (names : List Name)

@[simp] theorem ofNames_abs : (ofNames names).abs = false := by
  rw [ofNames_eq, (comps_push names empty).1]
  rfl

@[simp] theorem ofNames_comps : (ofNames names).comps = names.map .normal := by
  rw [ofNames_eq, (comps_push names empty).2]
  rfl

@[simp] theorem ofNames_slash : (ofNames names).slash = false := by
  rcases eq_or_ne names [] with rfl | hne
  · rfl
  · rw [ofNames_eq, (foldl_push_ends empty hne).1]

@[simp] theorem ofNames_dot : (ofNames names).dot = false := by
  rcases eq_or_ne names [] with rfl | hne
  · rfl
  · rw [ofNames_eq, (foldl_push_ends empty hne).2.1]

theorem ofNames_fileName (n : Name) : (ofNames [n]).fileName = some n := by simp [fileName]

@[simp] theorem ofNames_isEmpty : (ofNames names).isEmpty = names.isEmpty := by
  rw [isEmpty_eq, ofNames_abs, ofNames_comps]
  simp

end

/-! ### The path above -/

theorem later_concat (pieces : List Str) (piece : Str) :
    later (pieces ++ [piece]) = later pieces ++ (Comp.ofPiece piece).toList.filter (· ≠ .cur) := by
  rw [later, List.filterMap_append, List.filter_append, later]
  cases hc : Comp.ofPiece piece <;> simp [hc]

/-- What is trimmed says nothing. -/
theorem later_trimPieces (pieces : List Str) : later (trimPieces pieces) = later pieces := by
  induction pieces using List.reverseRecOn with
  | nil => rfl
  | append_singleton pieces piece ih =>
    rw [trimPieces, List.rdropWhile_concat, later_concat]
    split
    · rename_i h
      rw [← trimPieces, ih]
      rcases of_decide_eq_true h with rfl | rfl <;> exact (List.append_nil _).symm
    · exact later_concat pieces piece

theorem trimPieces_kept (pieces : List Str) : trimPieces pieces <+: pieces := List.rdropWhile_prefix _ _

/-- What is not trimmed ends with a component. -/
theorem trimPieces_concat {pieces init : List Str} {last : Str} (hslash : ∀ piece ∈ pieces, slashByte ∉ piece)
    (h : trimPieces pieces = init ++ [last]) : last ≠ [] ∧ ∃ c, Comp.ofPiece last = some c ∧ c ≠ .cur := by
  have hne : trimPieces pieces ≠ [] := by simp [h]
  have hlast : ¬ (last = [] ∨ last = dotName) := by
    have hkept := List.rdropWhile_last_not (fun piece : Str => decide (piece = [] ∨ piece = dotName)) pieces hne
    simp only [show pieces.rdropWhile (fun piece : Str => decide (piece = [] ∨ piece = dotName)) = init ++ [last] from h,
      List.getLast_append_singleton, decide_eq_true_eq] at hkept
    exact hkept
  have hmem : last ∈ pieces := (trimPieces_kept pieces).subset (by simp [h])
  exact ⟨fun hnil => hlast (Or.inl hnil), ofPiece_ne_cur (hslash last hmem) hlast⟩

section

variable {first : Str} {rest : List Str} (hfirst : slashByte ∉ first) (hrest : ∀ piece ∈ rest, slashByte ∉ piece)

include hfirst hrest

theorem splitSlash_joinPieces (h : ¬ (first = [] ∧ rest = [])) : splitSlash (joinPieces first rest) = first :: rest := by
  rw [joinPieces, if_neg h]
  exact splitSlash_joinSlash (List.cons_ne_nil _ _) (List.forall_mem_cons.mpr ⟨hfirst, hrest⟩)

theorem joinPieces_comps : (ofStr (joinPieces first rest)).comps = (Comp.ofPiece first).toList ++ later rest := by
  by_cases h : first = [] ∧ rest = []
  · obtain ⟨rfl, rfl⟩ := h
    rfl
  · exact comps_eq (splitSlash_joinPieces hfirst hrest h)

theorem joinPieces_abs : (ofStr (joinPieces first rest)).abs = decide (first = []) := by
  by_cases h : first = [] ∧ rest = []
  · obtain ⟨rfl, rfl⟩ := h
    rfl
  · refine decide_eq_decide.mpr ((head?_eq_slash_iff (splitSlash_joinPieces hfirst hrest h)).trans ⟨And.left, ?_⟩)
    exact fun hnil => ⟨hnil, fun hrest => h ⟨hnil, hrest⟩⟩

end

theorem joinSlash_concat : ∀ (pieces : List Str) (q : Str),
    joinSlash (pieces ++ [q]) = if pieces = [] then q else joinSlash pieces ++ slashByte :: q
  | [], q => rfl
  | [p], q => rfl
  | p :: p' :: pieces, q => by
    have ih := joinSlash_concat (p' :: pieces) q
    rw [if_neg (List.cons_ne_nil _ _)] at ih ⊢
    show p ++ slashByte :: joinSlash ((p' :: pieces) ++ [q]) = p ++ slashByte :: joinSlash (p' :: pieces) ++ slashByte :: q
    rw [ih, List.append_assoc, List.cons_append]

/-- What is trimmed has no `.` and no slash at its end, but for the root. -/
theorem joinPieces_ends {first : Str} {rest : List Str} (hfirst : slashByte ∉ first)
    (hrest : ∀ piece ∈ rest, slashByte ∉ piece) :
    (ofStr (joinPieces first (trimPieces rest))).dot = false ∧
      ((ofStr (joinPieces first (trimPieces rest))).slash = true → first = [] ∧ trimPieces rest = []) := by
  have hkept : ∀ piece ∈ trimPieces rest, slashByte ∉ piece := fun piece h =>
    hrest piece ((trimPieces_kept rest).subset h)
  rcases List.eq_nil_or_concat (trimPieces rest) with hnil | ⟨init, last, hconcat⟩
  · rw [hnil]
    rcases eq_or_ne first [] with rfl | hne
    · exact ⟨rfl, fun _ => ⟨rfl, rfl⟩⟩
    · have htext : joinPieces first [] = first := if_neg fun h => hne h.1
      rw [htext]
      have hslash : (ofStr first).slash = false := decide_eq_false fun h => hfirst (List.mem_of_getLast? h)
      have habs : (ofStr first).abs = false := decide_eq_false fun h => hfirst (List.mem_of_mem_head? h)
      refine ⟨decide_eq_false ?_, fun h => by rw [hslash] at h; cases h⟩
      rintro ⟨hlast, hmany⟩
      rw [habs, pieces, show (ofStr first).text = first from rfl, splitSlash_name hfirst] at hmany
      rw [pieces, show (ofStr first).text = first from rfl, splitSlash_name hfirst] at hlast
      obtain ⟨c, hc⟩ := Option.ne_none_iff_exists'.mp (ofPiece_ne_none hne hfirst)
      simp [hc] at hmany
  · rw [List.concat_eq_append] at hconcat
    obtain ⟨hlastne, c, hc, hcur⟩ := trimPieces_concat hrest hconcat
    have hne : ¬ (first = [] ∧ trimPieces rest = []) := by simp [hconcat]
    have hsplit := splitSlash_joinPieces hfirst hkept hne
    have hdot : (ofStr (joinPieces first (trimPieces rest))).dot = false := by
      refine decide_eq_false fun h => ?_
      have hpieces : (ofStr (joinPieces first (trimPieces rest))).pieces.getLast? = some c := by
        show ((splitSlash (joinPieces first (trimPieces rest))).filterMap Comp.ofPiece).getLast? = some c
        rw [hsplit, hconcat, ← List.cons_append, List.filterMap_append]
        simp [hc]
      rw [hpieces] at h
      exact hcur (Option.some.inj h.1)
    refine ⟨hdot, fun h => ?_⟩
    have htext : joinPieces first (trimPieces rest) = joinSlash (first :: init) ++ slashByte :: last := by
      rw [joinPieces, if_neg hne, hconcat, ← List.cons_append, joinSlash_concat, if_neg (List.cons_ne_nil _ _)]
    have hlast : (ofStr (joinPieces first (trimPieces rest))).text.getLast? = last.getLast? := by
      rw [ofStr, htext, List.getLast?_append_of_ne_nil _ (List.cons_ne_nil _ _), List.getLast?_cons_of_ne_nil hlastne]
    have hmem : slashByte ∈ last := List.mem_of_getLast? (hlast.symm.trans (of_decide_eq_true h))
    exact absurd hmem (hkept last (by simp [hconcat]))

/-- The path above has all but the last component. -/
theorem parent_eq_some {p q : Path} (h : p.parent = some q) : p.comps ≠ [] ∧ q.comps = p.comps.dropLast ∧
    q.abs = p.abs ∧ q.dot = false ∧ (q.slash = true → q.abs = true ∧ q.comps = []) := by
  obtain ⟨first, rest, hsplit⟩ := List.exists_cons_of_ne_nil (splitSlash_ne_nil p.text)
  have hfirst : slashByte ∉ first := slash_not_mem_splitSlash p.text first (hsplit ▸ List.mem_cons_self)
  have hrest : ∀ piece ∈ rest, slashByte ∉ piece := fun piece hpiece =>
    slash_not_mem_splitSlash p.text piece (hsplit ▸ List.mem_cons_of_mem first hpiece)
  have hcomps := comps_eq hsplit
  have habs : p.abs = decide (first = [] ∧ rest ≠ []) := decide_eq_decide.mpr (head?_eq_slash_iff hsplit)
  rw [← later_trimPieces] at hcomps
  simp only [parent, hsplit] at h
  rcases List.eq_nil_or_concat (trimPieces rest) with hnil | ⟨init, last, hconcat⟩
  · rw [if_neg (by simp [hnil])] at h
    rw [hnil] at hcomps
    by_cases hne : first ≠ []
    · rw [if_pos hne] at h
      obtain rfl := Option.some.inj h
      obtain ⟨c, hc⟩ := Option.ne_none_iff_exists'.mp (ofPiece_ne_none hne hfirst)
      rw [hc] at hcomps
      rw [hcomps, habs, decide_eq_false fun h => hne h.1]
      exact ⟨List.cons_ne_nil _ _, rfl, rfl, rfl, fun h => by cases h⟩
    · rw [if_neg hne] at h
      cases h
  · rw [List.concat_eq_append] at hconcat
    rw [if_pos (by simp [hconcat]), hconcat, List.dropLast_concat] at h
    obtain rfl := Option.some.inj h
    obtain ⟨-, c, hc, hcur⟩ := trimPieces_concat hrest hconcat
    have hinit : ∀ piece ∈ init, slashByte ∉ piece := fun piece hpiece =>
      hrest piece ((trimPieces_kept rest).subset (by simp [hconcat, hpiece]))
    have hkept : ∀ piece ∈ trimPieces init, slashByte ∉ piece := fun piece hpiece =>
      hinit piece ((trimPieces_kept init).subset hpiece)
    have hrestne : rest ≠ [] := by
      rintro rfl
      simp [trimPieces] at hconcat
    have hlater : (Comp.ofPiece first).toList ++ later (init ++ [last]) =
        ((Comp.ofPiece first).toList ++ later init) ++ [c] := by
      rw [later_concat, hc, List.append_assoc]
      simp [hcur]
    obtain ⟨hdot, hslash⟩ := joinPieces_ends hfirst hinit
    have hqabs := joinPieces_abs hfirst hkept
    have hqcomps := joinPieces_comps hfirst hkept
    rw [later_trimPieces] at hqcomps
    rw [hcomps, hconcat, hlater, List.dropLast_concat]
    refine ⟨by simp, hqcomps, ?_, hdot, fun h => ?_⟩
    · rw [habs]
      exact hqabs.trans (by simp [hrestne])
    · obtain ⟨rfl, hnil⟩ := hslash h
      refine ⟨hqabs, hqcomps.trans ?_⟩
      rw [← later_trimPieces, hnil]
      rfl

theorem joinSlash_splitSlash (s : Str) : joinSlash (splitSlash s) = s := by
  induction s with
  | nil => rfl
  | cons b s ih =>
    obtain ⟨p, ps, hp⟩ := List.exists_cons_of_ne_nil (splitSlash_ne_nil s)
    rw [hp] at ih
    rw [splitSlash, hp]
    split
    · rename_i hb
      rw [hb, ← ih]
      rfl
    · rw [← ih]
      cases ps <;> rfl

theorem trimPieces_name (pieces : List Str) (n : Name) : trimPieces (pieces ++ [n.1]) = pieces ++ [n.1] :=
  List.rdropWhile_concat_neg _ _ _ (by simp [n.2.1, n.2.2.2.1])

/-- A name is the last piece of what it is pushed on. -/
theorem splitSlash_push (p : Path) (n : Name) : ∃ front, splitSlash (p.push n).text = front ++ [n.1] := by
  show ∃ front, splitSlash (joinText p.text n.1) = _
  unfold joinText
  split
  · rename_i h
    rcases h with h | h
    · exact ⟨[], by rw [h, List.nil_append, splitSlash_name n.2.2.1]; rfl⟩
    · obtain ⟨s, hs⟩ := List.getLast?_eq_some_iff.mp h
      exact ⟨splitSlash s, by rw [hs, List.append_assoc, List.singleton_append, splitSlash_slash, splitSlash_name n.2.2.1]⟩
  · exact ⟨splitSlash p.text, by rw [splitSlash_slash, splitSlash_name n.2.2.1]⟩

/-- A name that is pushed on another is taken away. -/
theorem parent_push (p : Path) (m n : Name) : ((p.push m).push n).parent = some (p.push m) := by
  obtain ⟨front, hfront⟩ := splitSlash_push p m
  have hne : (p.push m).text ≠ [] := joinText_ne_nil p.text m.2.1
  have hslash : (p.push m).text.getLast? ≠ some slashByte := of_decide_eq_false (push_slash p m)
  have hsplit : splitSlash ((p.push m).push n).text = front ++ [m.1] ++ [n.1] := by
    show splitSlash (joinText (p.push m).text n.1) = _
    rw [joinText, if_neg (not_or.mpr ⟨hne, hslash⟩), splitSlash_slash, hfront, splitSlash_name n.2.2.1]
  have hback : joinSlash (front ++ [m.1]) = (p.push m).text := by rw [← hfront, joinSlash_splitSlash]
  rw [parent, hsplit]
  cases front with
  | nil =>
    have htrim : trimPieces [n.1] = [n.1] := trimPieces_name [] n
    have htext : joinPieces m.1 [] = (p.push m).text := (if_neg fun h => m.2.1 h.1).trans hback
    simp only [List.nil_append, List.singleton_append, htrim]
    rw [if_pos (List.cons_ne_nil _ _)]
    exact congrArg some (Path.ext htext)
  | cons first front =>
    have htext : joinPieces first (front ++ [m.1]) = (p.push m).text := (if_neg (by simp)).trans hback
    simp only [List.cons_append, trimPieces_name]
    rw [if_pos (by simp), List.dropLast_concat, trimPieces_name]
    exact congrArg some (Path.ext htext)

/-- There is none above nothing and above the root. -/
theorem parent_eq_none {p : Path} (h : p.parent = none) : p.comps = [] := by
  obtain ⟨first, rest, hsplit⟩ := List.exists_cons_of_ne_nil (splitSlash_ne_nil p.text)
  simp only [parent, hsplit] at h
  split at h
  · cases h
  · rename_i hrest
    split at h
    · cases h
    · rename_i hfirst
      rw [comps_eq hsplit, not_not.mp hfirst, ← later_trimPieces, not_not.mp hrest]
      rfl


theorem parent_comps {p q : Path} (h : p.parent = some q) : p.comps ≠ [] ∧ q.comps = p.comps.dropLast :=
  ⟨(parent_eq_some h).1, (parent_eq_some h).2.1⟩

theorem parent_abs {p q : Path} (h : p.parent = some q) : q.abs = p.abs := (parent_eq_some h).2.2.1

theorem parent_dot {p q : Path} (h : p.parent = some q) : q.dot = false := (parent_eq_some h).2.2.2.1

theorem parent_of_isEmpty {p : Path} (h : p.isEmpty = true) : p.parent = none := by
  cases hp : p.parent with
  | none => rfl
  | some q => exact absurd (isEmpty_iff.mp h).2 (parent_comps hp).1

theorem exists_parent {p : Path} (h : p.comps ≠ []) : ∃ q, p.parent = some q := by
  cases hp : p.parent with
  | none => exact absurd (parent_eq_none hp) h
  | some q => exact ⟨q, rfl⟩

/-- A parent is a prefix. -/
theorem mem_ancestors {p q : Path} (h : q ∈ p.ancestors) : q.abs = p.abs ∧ q.comps <+: p.comps := by
  have hup : ∀ n (p : Path), q ∈ upTo n p → q.abs = p.abs ∧ q.comps <+: p.comps := by
    intro n
    induction n with
    | zero =>
      intro p hq
      rw [List.mem_singleton.mp hq]
      exact ⟨rfl, List.prefix_rfl⟩
    | succ n ih =>
      intro p hq
      unfold upTo at hq
      cases hp : p.parent with
      | none =>
        rw [hp] at hq
        rw [List.mem_singleton.mp hq]
        exact ⟨rfl, List.prefix_rfl⟩
      | some q' =>
        rw [hp] at hq
        rcases List.mem_cons.mp hq with rfl | hq
        · exact ⟨rfl, List.prefix_rfl⟩
        · obtain ⟨habs, hpre⟩ := ih q' hq
          exact ⟨habs.trans (parent_abs hp), hpre.trans ((parent_comps hp).2 ▸ List.dropLast_prefix _)⟩
  exact hup _ p (List.mem_of_mem_filter h)

theorem ancestors_of_parent {p q : Path} (h : p.parent = some q) : p.ancestors = p :: q.ancestors := by
  obtain ⟨hne, hq⟩ := parent_comps h
  have hlen : p.comps.length = q.comps.length + 1 := by
    rw [hq, List.length_dropLast]
    have := List.length_pos_iff.mpr hne
    omega
  have hemp : p.isEmpty = false := by simp [isEmpty_eq, hne]
  rw [ancestors, hlen, upTo, h]
  simp [hemp, ancestors]

theorem ancestors_of_root {p : Path} (h : p.parent = none) : p.ancestors = if p.isEmpty then [] else [p] := by
  rw [ancestors, parent_eq_none h, List.length_nil, upTo]
  cases hp : p.isEmpty <;> simp [hp]

/-! ### Lexical resolution -/

/-- A path with `.` and `..` resolved away: how far it climbs out of where it
starts, then names only. -/
structure Lexical where
  abs : Bool
  ups : ℕ
  names : List Name
  deriving DecidableEq

/-- One component. Above the root is the root. -/
def Lexical.step (l : Lexical) : Comp → Lexical
  | .cur => l
  | .parent =>
    if l.names = [] then (if l.abs then l else { l with ups := l.ups + 1 })
    else { l with names := l.names.dropLast }
  | .normal name => { l with names := l.names ++ [name] }

/-- The path without looking at a filesystem. -/
def lexical (p : Path) : Lexical := p.comps.foldl Lexical.step ⟨p.abs, 0, []⟩

/-- At or below: the names of `d` are followed by more, or `d` is a directory
the start lies in and `l` climbs no further. -/
def Lexical.Within (l d : Lexical) : Prop :=
  l.abs = d.abs ∧ ((l.ups = d.ups ∧ d.names <+: l.names) ∨ (l.ups < d.ups ∧ d.names = []))

instance (l d : Lexical) : Decidable (l.Within d) := by unfold Lexical.Within; infer_instance

/-- `p` lies at or below `d` after lexical resolution of `.` and `..`. -/
def Within (p d : Path) : Prop := p.lexical.Within d.lexical

instance (p d : Path) : Decidable (p.Within d) := by unfold Path.Within; infer_instance

end Path

end Rsdb
