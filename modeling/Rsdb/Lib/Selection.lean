/-
# Numbered blocks, and a selection of them

A list of blocks, each made for the number of its place. Some of them are selected
by an increasing list of indexes, and what is in them is renumbered by the place of
its index in that list. That is the list of the selected blocks, each made for its
new number (`renumber_blocks`), as long as the numbers tell the blocks apart.
-/
import Mathlib.Data.List.Nodup
import Mathlib.Data.List.Sort

namespace Rsdb

variable {α β : Type}

/-- The elements at some indexes. -/
def select (xs : List α) (indexes : List ℕ) : List α := indexes.filterMap (xs[·]?)

/-- Each block for its number. -/
def blocks (block : α → ℕ → List β) (xs : List α) : List β := xs.zipIdx.flatMap fun p => block p.1 p.2

/-- `position` knows where in the list an index is. -/
structure Positions (position : ℕ → Option ℕ) (indexes : List ℕ) : Prop where
  of_getElem : ∀ k i, indexes[k]? = some i → position i = some k
  of_notMem : ∀ i ∉ indexes, position i = none

/-! ### Increasing indexes -/

/-- An increasing list is what the range has of it. -/
theorem filter_mem_range {indexes : List ℕ} {n : ℕ} (hsorted : indexes.Pairwise (· < ·)) (hlt : ∀ i ∈ indexes, i < n) :
    ((List.range n).filter fun i => decide (i ∈ indexes)) = indexes := by
  refine List.Perm.eq_of_pairwise (fun a b _ _ hab hba => absurd hab (lt_asymm hba))
    (List.pairwise_lt_range.filter _) hsorted ?_
  refine (List.perm_ext_iff_of_nodup (List.nodup_range.filter _) (hsorted.imp ne_of_lt)).mpr fun i => ?_
  rw [List.mem_filter, List.mem_range, decide_eq_true_eq]
  exact ⟨fun h => h.2, fun h => ⟨hlt i h, h⟩⟩

theorem length_le_of_increasing {indexes : List ℕ} {n : ℕ} (hsorted : indexes.Pairwise (· < ·))
    (hlt : ∀ i ∈ indexes, i < n) : indexes.length ≤ n := by
  have hle := List.length_filter_le (fun i => decide (i ∈ indexes)) (List.range n)
  rwa [filter_mem_range hsorted hlt, List.length_range] at hle

/-- The selected elements with their indexes. -/
def selected (xs : List α) (indexes : List ℕ) : List (α × ℕ) := xs.zipIdx.filter fun p => decide (p.2 ∈ indexes)

theorem map_snd_selected {xs : List α} {indexes : List ℕ} (hsorted : indexes.Pairwise (· < ·))
    (hlt : ∀ i ∈ indexes, i < xs.length) : (selected xs indexes).map Prod.snd = indexes := by
  have hmap : (xs.zipIdx.map Prod.snd).filter (fun i => decide (i ∈ indexes)) = (selected xs indexes).map Prod.snd :=
    List.filter_map
  rw [← hmap, List.zipIdx_map_snd, ← List.range_eq_range', filter_mem_range hsorted hlt]

theorem filterMap_getElem {xs : List α} : ∀ {ps : List (α × ℕ)}, (∀ p ∈ ps, xs[p.2]? = some p.1) →
    (ps.map Prod.snd).filterMap (xs[·]?) = ps.map Prod.fst
  | [], _ => rfl
  | p :: ps, h => by
    obtain ⟨hp, hps⟩ := List.forall_mem_cons.mp h
    rw [List.map_cons, List.filterMap_cons_some hp, filterMap_getElem hps, List.map_cons]

theorem map_fst_selected {xs : List α} {indexes : List ℕ} (hsorted : indexes.Pairwise (· < ·))
    (hlt : ∀ i ∈ indexes, i < xs.length) : (selected xs indexes).map Prod.fst = select xs indexes := by
  have hget : ∀ p ∈ selected xs indexes, xs[p.2]? = some p.1 := fun p hp =>
    List.mem_zipIdx_iff_getElem?.mp (List.mem_of_mem_filter hp)
  rw [← filterMap_getElem hget, map_snd_selected hsorted hlt, select]

/-- A selection comes in the order of the list. -/
theorem select_sublist {xs : List α} {indexes : List ℕ} (hsorted : indexes.Pairwise (· < ·))
    (hlt : ∀ i ∈ indexes, i < xs.length) : (select xs indexes).Sublist xs := by
  rw [← map_fst_selected hsorted hlt]
  conv_rhs => rw [← List.zipIdx_map_fst 0 xs]
  exact List.filter_sublist.map Prod.fst

theorem select_map (f : α → β) (xs : List α) (indexes : List ℕ) :
    select (xs.map f) indexes = (select xs indexes).map f := by
  rw [select, select, List.map_filterMap]
  exact List.filterMap_congr fun i _ => List.getElem?_map

/-! ### Renumbering -/

section

variable {block : α → ℕ → List β} {renumber : β → Option β} {position : ℕ → Option ℕ}

/-- What is renumbered, block by block, where the numbers are given by `number`. -/
theorem filterMap_blocks
    (hblock : ∀ x i, (block x i).filterMap renumber = (position i).elim [] (block x)) (number : ℕ → ℕ) (xs : List α) :
    (blocks (fun x i => block x (number i)) xs).filterMap renumber =
      xs.zipIdx.flatMap fun p => (position (number p.2)).elim [] (block p.1) := by
  rw [blocks, List.filterMap_flatMap]
  exact List.flatMap_congr fun p _ => hblock p.1 (number p.2)

theorem flatMap_filter {p : α → Bool} {f : α → List β} : ∀ {xs : List α}, (∀ x ∈ xs, p x = false → f x = []) →
    (xs.filter p).flatMap f = xs.flatMap f
  | [], _ => rfl
  | x :: xs, h => by
    obtain ⟨hx, hxs⟩ := List.forall_mem_cons.mp h
    rw [List.flatMap_cons, ← flatMap_filter hxs]
    cases hp : p x with
    | true => rw [List.filter_cons_of_pos hp, List.flatMap_cons]
    | false => rw [List.filter_cons_of_neg (by simp [hp]), hx hp, List.nil_append]

/-- Blocks whose old numbers are in the list at their new ones. -/
theorem flatMap_position : ∀ (ps : List (α × ℕ)) (n : ℕ), (∀ k p, ps[k]? = some p → position p.2 = some (n + k)) →
    (ps.flatMap fun p => (position p.2).elim [] (block p.1)) =
      ((ps.map Prod.fst).zipIdx n).flatMap fun p => block p.1 p.2
  | [], _, _ => rfl
  | p :: ps, n, h => by
    have hrest : ∀ k q, ps[k]? = some q → position q.2 = some (n + 1 + k) := fun k q hq => by
      rw [h (k + 1) q hq, Nat.add_right_comm, Nat.add_assoc]
    rw [List.flatMap_cons, h 0 p rfl, flatMap_position ps (n + 1) hrest, List.map_cons, List.zipIdx_cons,
      List.flatMap_cons]
    rfl

/-- **Selecting blocks and renumbering what is in them makes the selected blocks
anew.** -/
theorem renumber_blocks (hblock : ∀ x i, (block x i).filterMap renumber = (position i).elim [] (block x))
    {xs : List α} {indexes : List ℕ} (hsorted : indexes.Pairwise (· < ·)) (hlt : ∀ i ∈ indexes, i < xs.length)
    (hposition : Positions position indexes) :
    (blocks block xs).filterMap renumber = blocks block (select xs indexes) := by
  have hout : ∀ p ∈ xs.zipIdx, decide (p.2 ∈ indexes) = false → (position p.2).elim [] (block p.1) = [] := by
    intro p _ hp
    rw [hposition.of_notMem p.2 (of_decide_eq_false hp)]
    rfl
  have hin : ∀ k p, (selected xs indexes)[k]? = some p → position p.2 = some (0 + k) := by
    intro k p hp
    refine (Nat.zero_add k).symm ▸ hposition.of_getElem k p.2 ?_
    rw [← map_snd_selected hsorted hlt, List.getElem?_map, hp, Option.map_some]
  have hall := filterMap_blocks hblock id xs
  simp only [id] at hall
  rw [hall, ← flatMap_filter hout, ← map_fst_selected hsorted hlt]
  exact flatMap_position (selected xs indexes) 0 hin

end

end Rsdb
