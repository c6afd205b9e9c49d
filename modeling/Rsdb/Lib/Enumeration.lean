/-
# Enumerating the places of a tree

A tree of names seen as a partial map: `view` gives what is at a place, a place
being a list of names. `Enumerates view keep items` says that the items are the
kept places with what is there, in the order of the lists of names. In that
order a place comes before the places below it and siblings come as their names
do, so it is the order of a walk that lists a directory before its contents; a
place comes once (`Enumerates.nodup`).

A walk puts an enumeration together from the children of a directory, each with
what is below it (`Enumerates.child`). Of the places of a tree the preorder is
the one enumeration (`DirTree.enumerates_preorder`, `Enumerates.unique`).
-/
import Mathlib.Data.List.Sort
import Rsdb.Lib.DirTree

namespace Rsdb

variable {ν : Type} [LinearOrder ν]

/-- In order, each once. -/
def Ascending (names : List ν) : Prop := names.Pairwise (· < ·)

variable {γ : Type}

/-- The items are what the view has and is to be kept, each once, in the order of the places. -/
structure Enumerates (view : List ν → Option γ) (keep : List ν → Prop) (items : List (List ν × γ)) : Prop where
  ordered : items.Pairwise fun a b => a.1 < b.1
  mem : ∀ k x, (k, x) ∈ items ↔ keep k ∧ view k = some x

namespace Enumerates

variable {view : List ν → Option γ} {keep keep' : List ν → Prop} {items rest : List (List ν × γ)}

/-- The places are distinct. -/
theorem nodup (h : Enumerates view keep items) : (items.map Prod.fst).Nodup := by
  rw [List.Nodup, List.pairwise_map]
  exact h.ordered.imp fun hlt => ne_of_lt hlt

theorem nil (h : ∀ k x, keep k → view k ≠ some x) : Enumerates view keep [] where
  ordered := List.Pairwise.nil
  mem k x := ⟨fun hmem => absurd hmem List.not_mem_nil, fun hk => absurd hk.2 (h k x hk.1)⟩

theorem congr (h : Enumerates view keep items) (hkeep : ∀ k x, view k = some x → (keep' k ↔ keep k)) :
    Enumerates view keep' items where
  ordered := h.ordered
  mem k x := by
    rw [h.mem]
    constructor
    · rintro ⟨hk, hx⟩
      exact ⟨(hkeep k x hx).mpr hk, hx⟩
    · rintro ⟨hk, hx⟩
      exact ⟨(hkeep k x hx).mp hk, hx⟩

/-- A place after another one whose first name is less. -/
theorem lt_of_head {n : ν} {names : List ν} (hlt : ∀ m ∈ names, n < m) {k k' : List ν} (hk : k.head? = some n)
    (hk' : ∃ m ∈ names, k'.head? = some m) : k < k' := by
  obtain ⟨m, hm, hm'⟩ := hk'
  obtain ⟨t, rfl⟩ := List.head?_eq_some_iff.mp hk
  obtain ⟨t', rfl⟩ := List.head?_eq_some_iff.mp hm'
  exact List.cons_lt_cons_iff.mpr (Or.inl (hlt m hm))

/-- What is below a child, from the directory. -/
theorem under (n : ν) (h : Enumerates (fun k => view (n :: k)) (fun k => keep (n :: k)) items) :
    Enumerates view (fun k => k.head? = some n ∧ keep k) (items.map fun item => (n :: item.1, item.2)) where
  ordered := by
    rw [List.pairwise_map]
    exact h.ordered.imp fun hlt => List.cons_lt_cons_iff.mpr (Or.inr ⟨rfl, hlt⟩)
  mem k x := by
    rw [List.mem_map]
    constructor
    · rintro ⟨⟨t, x'⟩, hmem, heq⟩
      obtain ⟨rfl, rfl⟩ := Prod.mk.inj heq
      obtain ⟨hkeep, hview⟩ := (h.mem t x').mp hmem
      exact ⟨⟨rfl, hkeep⟩, hview⟩
    · rintro ⟨⟨hhead, hkeep⟩, hview⟩
      obtain ⟨t, rfl⟩ := List.head?_eq_some_iff.mp hhead
      exact ⟨(t, x), (h.mem t x).mpr ⟨hkeep, hview⟩, rfl⟩

/-- The places below the first child, and then those below the others. -/
theorem append {n : ν} {names : List ν} (hlt : ∀ m ∈ names, n < m)
    (h : Enumerates view (fun k => k.head? = some n ∧ keep k) items)
    (hrest : Enumerates view (fun k => (∃ m ∈ names, k.head? = some m) ∧ keep k) rest) :
    Enumerates view (fun k => (∃ m ∈ n :: names, k.head? = some m) ∧ keep k) (items ++ rest) where
  ordered := by
    refine List.pairwise_append.mpr ⟨h.ordered, hrest.ordered, fun a ha b hb => ?_⟩
    exact lt_of_head hlt ((h.mem a.1 a.2).mp ha).1.1 ((hrest.mem b.1 b.2).mp hb).1.1
  mem k x := by
    rw [List.mem_append, h.mem, hrest.mem]
    simp only [List.mem_cons, exists_eq_or_imp]
    tauto

/-- A child itself, and then what is below it. -/
theorem self {n : ν} {x : γ} (hkeep : keep [n]) (hview : view [n] = some x)
    (h : Enumerates (fun k => view (n :: k)) (fun k => k ≠ [] ∧ keep (n :: k)) items) :
    Enumerates (fun k => view (n :: k)) (fun k => keep (n :: k)) (([], x) :: items) where
  ordered := by
    refine List.pairwise_cons.mpr ⟨fun item hitem => ?_, h.ordered⟩
    obtain ⟨m, t, hm⟩ := List.exists_cons_of_ne_nil ((h.mem item.1 item.2).mp hitem).1.1
    rw [hm]
    exact List.nil_lt_cons m t
  mem k y := by
    rw [List.mem_cons, h.mem]
    constructor
    · rintro (heq | ⟨⟨-, hk⟩, hy⟩)
      · obtain ⟨rfl, rfl⟩ := Prod.mk.inj heq
        exact ⟨hkeep, hview⟩
      · exact ⟨hk, hy⟩
    · rintro ⟨hk, hy⟩
      by_cases hnil : k = []
      · subst hnil
        exact Or.inl (Prod.ext rfl (Option.some.inj (hy.symm.trans hview)))
      · exact Or.inr ⟨⟨hnil, hk⟩, hy⟩

/-- A child that is kept, what is below it, and the children after it. -/
theorem child {n : ν} {names : List ν} {x : γ} {below : List (List ν × γ)} (hlt : ∀ m ∈ names, n < m)
    (hkeep : keep [n]) (hview : view [n] = some x)
    (hbelow : Enumerates (fun k => view (n :: k)) (fun k => k ≠ [] ∧ keep (n :: k)) below)
    (hrest : Enumerates view (fun k => (∃ m ∈ names, k.head? = some m) ∧ keep k) rest) :
    Enumerates view (fun k => (∃ m ∈ n :: names, k.head? = some m) ∧ keep k)
      (([n], x) :: below.map (fun item => (n :: item.1, item.2)) ++ rest) :=
  ((hbelow.self hkeep hview).under n).append hlt hrest

/-- A child of which nothing is kept, and the children after it. -/
theorem skip {n : ν} {names : List ν} (hlt : ∀ m ∈ names, n < m) (hskip : ∀ k, ¬ keep (n :: k))
    (hrest : Enumerates view (fun k => (∃ m ∈ names, k.head? = some m) ∧ keep k) rest) :
    Enumerates view (fun k => (∃ m ∈ n :: names, k.head? = some m) ∧ keep k) rest := by
  have hnone : Enumerates (fun k => view (n :: k)) (fun k => keep (n :: k)) [] :=
    nil fun k _ hk => absurd hk (hskip k)
  exact (hnone.under n).append hlt hrest

/-- There is one enumeration. -/
theorem unique {items' : List (List ν × γ)} (h : Enumerates view keep items) (h' : Enumerates view keep items') :
    items = items' := by
  have hirrefl : Std.Irrefl fun a b : List ν × γ => a.1 < b.1 := ⟨fun a => lt_irrefl a.1⟩
  have hantisymm : Std.Antisymm fun a b : List ν × γ => a.1 < b.1 := ⟨fun a b hab hba => absurd hab (lt_asymm hba)⟩
  exact h.ordered.eq_of_mem_iff h'.ordered fun item => by rw [h.mem, h'.mem]

/-- The places that are kept of those of an enumeration. -/
theorem filter (h : Enumerates view keep items) (p : List ν → Bool) :
    Enumerates view (fun k => keep k ∧ p k = true) (items.filter fun item => p item.1) where
  ordered := h.ordered.filter _
  mem k x := by
    rw [List.mem_filter, h.mem]
    tauto

end Enumerates

/-- The places of an ordered tree in preorder enumerate it. -/
theorem DirTree.enumerates_preorder {α β : Type} {t : DirTree ν α β} (h : t.Ordered) :
    Enumerates t.view (fun _ => True) (t.preorder.map fun p => (p.1, p.2.label)) where
  ordered := List.pairwise_map.mpr (ascending_preorder h)
  mem k x := by
    rw [List.mem_map, true_and, view, Option.map_eq_some_iff]
    constructor
    · rintro ⟨⟨k', u⟩, hmem, heq⟩
      obtain ⟨rfl, rfl⟩ := Prod.mk.inj heq
      exact ⟨u, (mem_preorder h).mp hmem, rfl⟩
    · rintro ⟨u, hu, rfl⟩
      exact ⟨(k, u), (mem_preorder h).mpr hu, rfl⟩

end Rsdb
