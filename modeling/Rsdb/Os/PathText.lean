/-
# Paths that are texts

The strings of the messages are UTF-8 and file names need not be. A path read from
a text stays one when names are pushed on it that are texts (`IsText.foldl_push`),
its names are texts too (`IsText.name`) and the path above it is one
(`IsText.parent`), and its text says which names were pushed
(`display_foldl_push_inj`).
-/
import Rsdb.Lib.Utf8
import Rsdb.Os.Path

namespace Rsdb

namespace Path

/-- The names pushed on a path can be read off its text. -/
theorem display_foldl_push_inj (p : Path) {k k' : List Name} (h : (k.foldl push p).display = (k'.foldl push p).display) :
    k = k' := by
  have hcomps := congrArg comps (Path.ext h)
  rw [(comps_push k p).2, (comps_push k' p).2] at hcomps
  exact List.map_injective_iff.mpr (fun _ _ => Comp.normal.inj) (List.append_cancel_left hcomps)

/-- The path is UTF-8. -/
def IsText (p : Path) : Prop := isUtf8 p.text = true

instance : DecidablePred IsText := fun p => by unfold IsText; infer_instance

theorem isText_ofStr {s : Str} (hs : isUtf8 s = true) : (ofStr s).IsText := hs

theorem isUtf8_display {p : Path} (hp : p.IsText) : isUtf8 p.display = true := hp

theorem isUtf8_joinText {s t : Str} (hs : isUtf8 s = true) (ht : isUtf8 t = true) : isUtf8 (joinText s t) = true := by
  unfold joinText
  split
  · rw [isUtf8_append hs, ht]
  · rw [isUtf8_ascii_between s (by decide), hs, ht]
    rfl

theorem IsText.foldl_push {p : Path} (hp : p.IsText) : ∀ {k : List Name}, (∀ n ∈ k, isUtf8 n.1 = true) →
    (k.foldl push p).IsText
  | [], _ => hp
  | n :: k, hk => by
    obtain ⟨hn, hk'⟩ := List.forall_mem_cons.mp hk
    have hpush : (p.push n).IsText := isUtf8_joinText hp hn
    exact hpush.foldl_push hk'

theorem isUtf8_joinSlash : ∀ {pieces : List Str}, (∀ piece ∈ pieces, isUtf8 piece = true) → isUtf8 (joinSlash pieces) = true
  | [], _ => rfl
  | [piece], h => h piece List.mem_cons_self
  | piece :: next :: pieces, h => by
    obtain ⟨hpiece, hrest⟩ := List.forall_mem_cons.mp h
    show isUtf8 (piece ++ slashByte :: joinSlash (next :: pieces)) = true
    rw [isUtf8_ascii_between piece (by decide), hpiece, isUtf8_joinSlash hrest]
    rfl

/-- The pieces of a text are texts. -/
theorem isUtf8_splitSlash {s : Str} (hs : isUtf8 s = true) : ∀ piece ∈ splitSlash s, isUtf8 piece = true := by
  by_cases hmem : slashByte ∈ s
  · obtain ⟨a, b, rfl, ha⟩ := List.eq_append_cons_of_mem hmem
    rw [isUtf8_ascii_between a (by decide), Bool.and_eq_true] at hs
    rw [splitSlash_append ha]
    exact List.forall_mem_cons.mpr ⟨hs.1, isUtf8_splitSlash hs.2⟩
  · rw [splitSlash_name hmem]
    simpa using hs
termination_by s.length
decreasing_by
  subst_vars
  rw [List.length_append, List.length_cons]
  omega

theorem mem_dropCur {abs : Bool} {c : Comp} : ∀ {cs : List Comp}, c ∈ dropCur abs cs → c ∈ cs
  | d :: cs, h => by
    simp only [dropCur] at h
    split at h
    · exact List.mem_cons_of_mem d (List.mem_of_mem_filter h)
    · rcases List.mem_cons.mp h with rfl | h
      · exact List.mem_cons_self
      · exact List.mem_cons_of_mem d (List.mem_of_mem_filter h)

/-- A name is the piece it is read from. -/
theorem eq_of_ofPiece {piece : Str} {n : Name} (h : Comp.ofPiece piece = some (.normal n)) : piece = n.1 := by
  unfold Comp.ofPiece at h
  split_ifs at h
  · cases h
  · cases h
  · cases h
    rfl

theorem IsText.name {p : Path} (hp : p.IsText) {n : Name} (hn : .normal n ∈ p.comps) : isUtf8 n.1 = true := by
  obtain ⟨piece, hpiece, hof⟩ := List.mem_filterMap.mp (mem_dropCur hn)
  rw [← eq_of_ofPiece hof]
  exact isUtf8_splitSlash hp piece hpiece

theorem IsText.parent {p q : Path} (hp : p.IsText) (h : p.parent = some q) : q.IsText := by
  obtain ⟨first, rest, hsplit⟩ := List.exists_cons_of_ne_nil (splitSlash_ne_nil p.text)
  have hpieces : ∀ piece ∈ first :: rest, isUtf8 piece = true := hsplit ▸ isUtf8_splitSlash hp
  simp only [Path.parent, hsplit] at h
  split_ifs at h
  · obtain rfl := Option.some.inj h
    have hfront : trimPieces (trimPieces rest).dropLast ⊆ rest :=
      ((trimPieces_kept _).trans ((List.dropLast_prefix _).trans (trimPieces_kept rest))).subset
    show isUtf8 (joinPieces first (trimPieces (trimPieces rest).dropLast)) = true
    unfold joinPieces
    split
    · decide
    · exact isUtf8_joinSlash (List.forall_mem_cons.mpr ⟨hpieces first List.mem_cons_self,
        fun piece hpiece => hpieces piece (List.mem_cons_of_mem first (hfront hpiece))⟩)
  · obtain rfl := Option.some.inj h
    rfl

end Path

end Rsdb
