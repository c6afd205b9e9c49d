/-
# Trees of named entries

A tree whose inner nodes carry a label `β` and children with names of `ν`, and
whose leaves carry a label `α`. A place in it is a list of names. `sub` is the
subtree at a place, `view` its label, and `put` replaces, adds or removes the
subtree at a place whose parent is an inner node.

The children are kept in the order of their names (`Ordered`), so the names are
distinct. `preorder` lists every place once (`mem_preorder`, `nodup_preorder`), so no
part of a tree has all of its places (`exists_missing_below`).
`view_put` is what the other modules use: below the place it is the new
subtree, elsewhere nothing changes.
-/
import Mathlib.Order.Lattice
import Mathlib.Data.List.Lex
import Mathlib.Data.List.Basic
import Mathlib.Data.List.Infix
import Mathlib.Data.List.Nodup

namespace Rsdb

/-- A tree of names: leaves, and directories with children. -/
inductive DirTree (ν α β : Type) where
  | leaf (a : α)
  | dir (b : β) (children : List (ν × DirTree ν α β))

namespace DirTree

variable {ν α β : Type} [LinearOrder ν]

/-! ### The children of a node -/

/-- The child of that name. -/
def child (n : ν) : List (ν × DirTree ν α β) → Option (DirTree ν α β)
  | [] => none
  | (m, t) :: cs => if m = n then some t else child n cs

/-- The children with the one of that name replaced, added or removed. -/
def setChild (n : ν) (x : Option (DirTree ν α β)) :
    List (ν × DirTree ν α β) → List (ν × DirTree ν α β)
  | [] => (x.map (n, ·)).toList
  | (m, t) :: cs =>
    if m = n then (x.map (n, ·)).toList ++ cs
    else if n < m then (x.map (n, ·)).toList ++ (m, t) :: cs
    else (m, t) :: setChild n x cs

theorem child_eq_none {n : ν} : ∀ {cs : List (ν × DirTree ν α β)}, child n cs = none ↔ ∀ c ∈ cs, c.1 ≠ n
  | [] => by simp [child]
  | (m, t) :: cs => by
    have ih : child n cs = none ↔ ∀ c ∈ cs, c.1 ≠ n := child_eq_none
    by_cases h : m = n <;> simp [child, h, ih]

theorem mem_of_child {n : ν} {t : DirTree ν α β} : ∀ {cs : List (ν × DirTree ν α β)},
    child n cs = some t → (n, t) ∈ cs
  | (m, u) :: cs, h => by
    by_cases hm : m = n
    · simp only [child, hm, ↓reduceIte, Option.some.injEq] at h
      simp [hm, h]
    · simp only [child, hm, ↓reduceIte] at h
      exact List.mem_cons_of_mem _ (mem_of_child h)

theorem child_append_of_ne {n k : ν} (h : n ≠ k) (x : Option (DirTree ν α β))
    (cs : List (ν × DirTree ν α β)) : child k ((x.map (n, ·)).toList ++ cs) = child k cs := by
  cases x <;> simp [child, h]

theorem child_setChild_ne {n k : ν} (h : n ≠ k) (x : Option (DirTree ν α β)) :
    ∀ cs : List (ν × DirTree ν α β), child k (setChild n x cs) = child k cs
  | [] => by simpa [setChild, child] using child_append_of_ne h x []
  | (m, t) :: cs => by
    unfold setChild
    split
    · rename_i hm
      rw [child_append_of_ne h, child, if_neg (hm ▸ h)]
    · split
      · rw [child_append_of_ne h]
      · rw [child, child, child_setChild_ne h x cs]

/-- The names are in order, and so distinct. -/
def NamesOrdered (cs : List (ν × DirTree ν α β)) : Prop := cs.Pairwise fun c d => c.1 < d.1

theorem child_setChild_self (n : ν) (x : Option (DirTree ν α β)) :
    ∀ {cs : List (ν × DirTree ν α β)}, NamesOrdered cs → child n (setChild n x cs) = x
  | [], _ => by cases x <;> simp [setChild, child]
  | (m, t) :: cs, h => by
    obtain ⟨hm, hcs⟩ := List.pairwise_cons.mp h
    unfold setChild
    split
    · rename_i heq
      cases x with
      | none => exact child_eq_none.mpr fun c hc => heq ▸ (hm c hc).ne'
      | some t => simp [child]
    · rename_i hne
      split
      · rename_i hlt
        cases x with
        | none =>
          refine child_eq_none.mpr fun c hc => ?_
          rcases List.mem_cons.mp hc with rfl | hc
          · exact hne
          · exact (hlt.trans (hm c hc)).ne'
        | some t => simp [child]
      · rw [child, if_neg hne, child_setChild_self n x hcs]

theorem mem_setChild {n : ν} {x : Option (DirTree ν α β)} {c : ν × DirTree ν α β} :
    ∀ {cs : List (ν × DirTree ν α β)}, c ∈ setChild n x cs → (c.1 = n ∧ x = some c.2) ∨ c ∈ cs
  | [], h => by
    cases x with
    | none => simp [setChild] at h
    | some t => simp only [setChild, Option.map_some, Option.toList_some, List.mem_singleton] at h; simp [h]
  | (m, t) :: cs, h => by
    have hhead : c ∈ (x.map (n, ·)).toList → c.1 = n ∧ x = some c.2 := by
      cases x with
      | none => simp
      | some t => intro hc; simp only [Option.map_some, Option.toList_some, List.mem_singleton] at hc; simp [hc]
    unfold setChild at h
    split at h
    · rcases List.mem_append.mp h with h | h
      · exact Or.inl (hhead h)
      · exact Or.inr (List.mem_cons_of_mem _ h)
    · split at h
      · rcases List.mem_append.mp h with h | h
        · exact Or.inl (hhead h)
        · exact Or.inr h
      · rcases List.mem_cons.mp h with rfl | h
        · exact Or.inr List.mem_cons_self
        · rcases mem_setChild h with h | h
          · exact Or.inl h
          · exact Or.inr (List.mem_cons_of_mem _ h)

theorem namesOrdered_setChild (n : ν) (x : Option (DirTree ν α β)) :
    ∀ {cs : List (ν × DirTree ν α β)}, NamesOrdered cs → NamesOrdered (setChild n x cs)
  | [], _ => by cases x <;> simp [setChild, NamesOrdered]
  | (m, t) :: cs, h => by
    obtain ⟨hm, hcs⟩ := List.pairwise_cons.mp h
    have hhead : ∀ ds : List (ν × DirTree ν α β), NamesOrdered ds → (∀ d ∈ ds, n < d.1) →
        NamesOrdered ((x.map (n, ·)).toList ++ ds) := by
      intro ds hds hlt
      cases x with
      | none => simpa using hds
      | some t => exact List.pairwise_cons.mpr ⟨hlt, hds⟩
    unfold setChild
    split
    · rename_i heq
      exact hhead cs hcs fun d hd => heq ▸ hm d hd
    · rename_i hne
      split
      · rename_i hlt
        refine hhead _ h fun d hd => ?_
        rcases List.mem_cons.mp hd with rfl | hd
        · exact hlt
        · exact hlt.trans (hm d hd)
      · rename_i hnlt
        refine List.pairwise_cons.mpr ⟨fun d hd => ?_, namesOrdered_setChild n x hcs⟩
        rcases mem_setChild hd with ⟨hdn, -⟩ | hd
        · rw [hdn]
          exact lt_of_le_of_ne (not_lt.mp hnlt) hne
        · exact hm d hd

/-! ### Places -/

/-- The subtree at a place. -/
def sub : DirTree ν α β → List ν → Option (DirTree ν α β)
  | t, [] => some t
  | leaf _, _ :: _ => none
  | dir _ cs, n :: l => (child n cs).bind fun t => sub t l

/-- A leaf's label, or a directory's. -/
def label : DirTree ν α β → α ⊕ β
  | leaf a => .inl a
  | dir b _ => .inr b

/-- The children, of a leaf none. -/
def children : DirTree ν α β → List (ν × DirTree ν α β)
  | leaf _ => []
  | dir _ cs => cs

/-- The label at a place. -/
def view (t : DirTree ν α β) (l : List ν) : Option (α ⊕ β) := (sub t l).map label

@[simp] theorem sub_nil (t : DirTree ν α β) : sub t [] = some t := by cases t <;> rfl

@[simp] theorem sub_leaf_cons (a : α) (n : ν) (l : List ν) : sub (leaf a : DirTree ν α β) (n :: l) = none := rfl

theorem sub_dir_cons (b : β) (cs : List (ν × DirTree ν α β)) (n : ν) (l : List ν) :
    sub (dir b cs) (n :: l) = (child n cs).bind fun t => sub t l := rfl

theorem sub_append : ∀ (t : DirTree ν α β) (l k : List ν), sub t (l ++ k) = (sub t l).bind fun u => sub u k
  | t, [], k => by simp
  | leaf a, n :: l, k => rfl
  | dir b cs, n :: l, k => by
    rw [List.cons_append, sub_dir_cons, sub_dir_cons]
    cases child n cs with
    | none => rfl
    | some t => exact sub_append t l k

theorem view_of_sub {t u : DirTree ν α β} {l : List ν} (h : sub t l = some u) (k : List ν) :
    view t (l ++ k) = view u k := by
  rw [view, view, sub_append, h]
  rfl

theorem view_append_eq_none {t : DirTree ν α β} {l : List ν} (h : view t l = none) (k : List ν) :
    view t (l ++ k) = none := by
  rw [view, Option.map_eq_none_iff] at h
  rw [view, sub_append, h]
  rfl

/-- Under a leaf there is nothing. -/
theorem view_append_of_leaf {t : DirTree ν α β} {l : List ν} {a : α} (h : view t l = some (.inl a))
    (n : ν) (k : List ν) : view t (l ++ n :: k) = none := by
  rw [view, Option.map_eq_some_iff] at h
  obtain ⟨u, hu, hl⟩ := h
  rw [view, sub_append, hu]
  cases u with
  | leaf a => rfl
  | dir b cs => cases hl

/-- What is there has a directory above it. -/
theorem exists_dir_of_view {t : DirTree ν α β} {l : List ν} {n : ν} {x : α ⊕ β}
    (h : view t (l ++ [n]) = some x) : ∃ b, view t l = some (.inr b) := by
  cases hv : view t l with
  | none => rw [view_append_eq_none hv] at h; cases h
  | some y =>
    cases y with
    | inl a => rw [view_append_of_leaf hv n []] at h; cases h
    | inr b => exact ⟨b, rfl⟩

/-- What is there has something at every place above it. -/
theorem exists_view_of_append {t : DirTree ν α β} {l k : List ν} {x : α ⊕ β} (h : view t (l ++ k) = some x) :
    ∃ y, view t l = some y := by
  cases hv : view t l with
  | none => rw [view_append_eq_none hv] at h; cases h
  | some y => exact ⟨y, rfl⟩

/-- The tree with the subtree at a place replaced, added or removed. Nothing
happens where the parent is not a directory; the root is not removed. -/
def put : DirTree ν α β → List ν → Option (DirTree ν α β) → DirTree ν α β
  | t, [], x => x.getD t
  | leaf a, _ :: _, _ => leaf a
  | dir b cs, n :: l, x =>
    dir b (setChild n (if l = [] then x else (child n cs).map fun t => put t l x) cs)

theorem put_nil (t u : DirTree ν α β) : put t [] (some u) = u := by cases t <;> rfl

/-- The names are in order in every directory. -/
inductive Ordered : DirTree ν α β → Prop where
  | ofLeaf (a : α) : Ordered (leaf a)
  | ofDir (b : β) (cs : List (ν × DirTree ν α β)) (h : NamesOrdered cs) (hcs : ∀ c ∈ cs, Ordered c.2) :
    Ordered (dir b cs)

theorem Ordered.names {b : β} {cs : List (ν × DirTree ν α β)} (h : Ordered (dir b cs)) : NamesOrdered cs := by
  cases h with | ofDir _ _ h _ => exact h

theorem Ordered.mem {b : β} {cs : List (ν × DirTree ν α β)} (h : Ordered (dir b cs)) {c : ν × DirTree ν α β}
    (hc : c ∈ cs) : Ordered c.2 := by
  cases h with | ofDir _ _ _ hcs => exact hcs c hc

theorem Ordered.sub : ∀ {t : DirTree ν α β} {l : List ν} {u : DirTree ν α β}, Ordered t →
    DirTree.sub t l = some u → Ordered u
  | t, [], u, h, hs => by
    simp only [sub_nil, Option.some.injEq] at hs
    exact hs ▸ h
  | dir b cs, n :: l, u, h, hs => by
    rw [sub_dir_cons, Option.bind_eq_some_iff] at hs
    obtain ⟨t, ht, hs⟩ := hs
    exact Ordered.sub (h.mem (mem_of_child ht)) hs

theorem Ordered.put : ∀ {t : DirTree ν α β} {l : List ν} {x : Option (DirTree ν α β)}, Ordered t →
    (∀ u, x = some u → Ordered u) → Ordered (t.put l x)
  | t, [], none, h, _ => by cases t <;> exact h
  | t, [], some u, _, hx => by rw [put_nil]; exact hx u rfl
  | leaf a, _ :: _, _, _, _ => Ordered.ofLeaf a
  | dir b cs, n :: l, x, h, hx => by
    refine Ordered.ofDir b _ (namesOrdered_setChild n _ h.names) fun c hc => ?_
    rcases mem_setChild hc with ⟨-, hc⟩ | hc
    · split at hc
      · exact hx c.2 hc
      · obtain ⟨t, ht, hput⟩ := Option.map_eq_some_iff.mp hc
        exact hput ▸ Ordered.put (h.mem (mem_of_child ht)) hx
    · exact h.mem hc

/-! ### Every place -/

mutual

/-- The places of a tree with their subtrees, a node before what is in it. -/
def preorder : DirTree ν α β → List (List ν × DirTree ν α β)
  | leaf a => [([], leaf a)]
  | dir b cs => ([], dir b cs) :: preorderIn cs

/-- The children in turn, each with what is below it. -/
def preorderIn : List (ν × DirTree ν α β) → List (List ν × DirTree ν α β)
  | [] => []
  | (n, t) :: cs => (preorder t).map (fun p => (n :: p.1, p.2)) ++ preorderIn cs

end

omit [LinearOrder ν] in
theorem mem_preorderIn {l : List ν} {u : DirTree ν α β} : ∀ {cs : List (ν × DirTree ν α β)},
    (l, u) ∈ preorderIn cs ↔ ∃ n t k, (n, t) ∈ cs ∧ (k, u) ∈ preorder t ∧ l = n :: k
  | [] => by simp [preorderIn]
  | (m, t) :: cs => by
    have ih : (l, u) ∈ preorderIn cs ↔ ∃ n t k, (n, t) ∈ cs ∧ (k, u) ∈ preorder t ∧ l = n :: k :=
      mem_preorderIn
    rw [preorderIn, List.mem_append, List.mem_map, ih]
    constructor
    · rintro (⟨⟨k, u'⟩, hk, heq⟩ | ⟨n, t', k, hn, hk, hl⟩)
      · obtain ⟨rfl, rfl⟩ := Prod.mk.inj heq
        exact ⟨m, t, k, List.mem_cons_self, hk, rfl⟩
      · exact ⟨n, t', k, List.mem_cons_of_mem _ hn, hk, hl⟩
    · rintro ⟨n, t', k, hn, hk, rfl⟩
      rcases List.mem_cons.mp hn with heq | hn
      · obtain ⟨rfl, rfl⟩ := Prod.mk.inj heq
        exact Or.inl ⟨(k, u), hk, rfl⟩
      · exact Or.inr ⟨n, t', k, hn, hk, rfl⟩

/-- In an ordered tree the children are found by their names. -/
theorem child_of_mem {n : ν} {t : DirTree ν α β} : ∀ {cs : List (ν × DirTree ν α β)}, NamesOrdered cs →
    (n, t) ∈ cs → child n cs = some t
  | (m, u) :: cs, h, hmem => by
    obtain ⟨hm, hcs⟩ := List.pairwise_cons.mp h
    rcases List.mem_cons.mp hmem with heq | hmem
    · obtain ⟨rfl, rfl⟩ := Prod.mk.inj heq
      simp [child]
    · rw [child, if_neg (hm _ hmem).ne, child_of_mem hcs hmem]

/-- The places are those that `sub` finds. -/
theorem mem_preorder : ∀ {l : List ν} {t u : DirTree ν α β}, Ordered t →
    ((l, u) ∈ preorder t ↔ sub t l = some u)
  | [], t, u, _ => by
    cases t with
    | leaf a => simp [preorder, eq_comm]
    | dir b cs =>
      have hin : ([], u) ∉ preorderIn cs := fun h => by
        obtain ⟨n, t, k, -, -, hl⟩ := mem_preorderIn.mp h
        cases hl
      simp [preorder, hin, eq_comm]
  | n :: l, leaf a, u, _ => by simp [preorder]
  | n :: l, dir b cs, u, h => by
    rw [preorder, List.mem_cons, sub_dir_cons, Option.bind_eq_some_iff]
    constructor
    · rintro (heq | hmem)
      · cases heq
      · obtain ⟨m, t, k, hm, hk, hl⟩ := mem_preorderIn.mp hmem
        obtain ⟨rfl, rfl⟩ := List.cons.inj hl
        exact ⟨t, child_of_mem h.names hm, (mem_preorder (h.mem hm)).mp hk⟩
    · rintro ⟨t, ht, hsub⟩
      have hmem := mem_of_child ht
      exact Or.inr (mem_preorderIn.mpr ⟨n, t, l, hmem, (mem_preorder (h.mem hmem)).mpr hsub, rfl⟩)

/-- A place is no deeper than the tree. -/
theorem exists_depth {t : DirTree ν α β} (h : Ordered t) : ∃ n, ∀ l x, view t l = some x → l.length ≤ n := by
  have hbound : ∀ places : List (List ν × DirTree ν α β), ∃ n, ∀ p ∈ places, p.1.length ≤ n := by
    intro places
    induction places with
    | nil => exact ⟨0, by simp⟩
    | cons p places ih =>
      obtain ⟨n, hn⟩ := ih
      exact ⟨max p.1.length n, List.forall_mem_cons.mpr ⟨le_max_left _ _, fun q hq => (hn q hq).trans (le_max_right _ _)⟩⟩
  obtain ⟨n, hn⟩ := hbound (preorder t)
  refine ⟨n, fun l x hv => ?_⟩
  rw [view, Option.map_eq_some_iff] at hv
  obtain ⟨u, hu, -⟩ := hv
  exact hn (l, u) ((mem_preorder h).mpr hu)

/-- No part of a tree has all the places of the whole. -/
theorem exists_missing_below {t : DirTree ν α β} (h : Ordered t) {l : List ν} (hne : l ≠ []) :
    ∃ k x, view t k = some x ∧ view t (l ++ k) = none := by
  by_contra hno
  push Not at hno
  obtain ⟨depth, hdepth⟩ := exists_depth h
  have hdeep : ∀ n, ∃ k x, view t k = some x ∧ n ≤ k.length := by
    intro n
    induction n with
    | zero => exact ⟨[], label t, by rw [view, sub_nil]; rfl, Nat.zero_le _⟩
    | succ n ih =>
      obtain ⟨k, x, hk, hn⟩ := ih
      obtain ⟨y, hy⟩ := Option.ne_none_iff_exists'.mp (hno k x hk)
      have hpos := List.length_pos_of_ne_nil hne
      exact ⟨l ++ k, y, hy, by rw [List.length_append]; omega⟩
  obtain ⟨k, x, hk, hn⟩ := hdeep (depth + 1)
  have hle := hdepth k x hk
  omega

/-! The places come in the order of their lists of names, so none comes twice. -/

mutual

theorem ascending_preorder : ∀ {t : DirTree ν α β}, Ordered t → (preorder t).Pairwise fun p q => p.1 < q.1
  | leaf a, _ => by
    rw [preorder]
    exact List.pairwise_singleton _ _
  | dir b cs, h => by
    rw [preorder]
    refine List.pairwise_cons.mpr ⟨fun p hp => ?_, ascending_preorderIn h.names fun c hc => h.mem hc⟩
    obtain ⟨n, t, k, -, -, hk⟩ := mem_preorderIn.mp (show (p.1, p.2) ∈ preorderIn cs from hp)
    rw [hk]
    exact List.nil_lt_cons n k

theorem ascending_preorderIn : ∀ {cs : List (ν × DirTree ν α β)}, NamesOrdered cs → (∀ c ∈ cs, Ordered c.2) →
    (preorderIn cs).Pairwise fun p q => p.1 < q.1
  | [], _, _ => List.Pairwise.nil
  | (n, t) :: cs, h, hcs => by
    obtain ⟨hn, hrest⟩ := List.pairwise_cons.mp h
    have ht := ascending_preorder (hcs (n, t) List.mem_cons_self)
    have ih := ascending_preorderIn hrest fun c hc => hcs c (List.mem_cons_of_mem _ hc)
    rw [preorderIn]
    refine List.pairwise_append.mpr ⟨?_, ih, fun p hp q hq => ?_⟩
    · rw [List.pairwise_map]
      exact ht.imp fun hlt => List.cons_lt_cons_iff.mpr (Or.inr ⟨rfl, hlt⟩)
    · obtain ⟨p', -, rfl⟩ := List.mem_map.mp hp
      obtain ⟨m, u, k, hm, -, hk⟩ := mem_preorderIn.mp (show (q.1, q.2) ∈ preorderIn cs from hq)
      rw [hk]
      exact List.cons_lt_cons_iff.mpr (Or.inl (hn (m, u) hm))

end

theorem nodup_preorder {t : DirTree ν α β} (h : Ordered t) : ((preorder t).map Prod.fst).Nodup := by
  rw [List.Nodup, List.pairwise_map]
  exact (ascending_preorder h).imp fun hlt => ne_of_lt hlt

/-- Every place comes after the places above it; `seen` are those before the list. -/
def ParentsFirst : (List ν → Prop) → List (List ν) → Prop
  | _, [] => True
  | seen, l :: ls => (∀ pre, pre <+: l → pre ≠ l → seen pre) ∧ ParentsFirst (fun k => seen k ∨ k = l) ls

omit [LinearOrder ν] in
theorem ParentsFirst.mono : ∀ {ls : List (List ν)} {seen seen' : List ν → Prop}, ParentsFirst seen ls →
    (∀ k, seen k → seen' k) → ParentsFirst seen' ls
  | [], _, _, _, _ => trivial
  | _ :: _, _, _, h, hs =>
    ⟨fun pre hpre hne => hs pre (h.1 pre hpre hne), h.2.mono fun k hk => hk.imp_left (hs k)⟩

omit [LinearOrder ν] in
theorem ParentsFirst.append : ∀ {a b : List (List ν)} {seen : List ν → Prop}, ParentsFirst seen a →
    ParentsFirst (fun k => seen k ∨ k ∈ a) b → ParentsFirst seen (a ++ b)
  | [], _, _, _, hb => hb.mono fun k hk => hk.resolve_right (by simp)
  | l :: a, b, seen, ha, hb => by
    refine ⟨ha.1, ParentsFirst.append ha.2 (hb.mono fun k hk => ?_)⟩
    rwa [List.mem_cons, ← or_assoc] at hk

omit [LinearOrder ν] in
/-- The places above one are before it. -/
theorem ParentsFirst.before : ∀ {a b : List (List ν)} {l : List ν} {seen : List ν → Prop},
    ParentsFirst seen (a ++ l :: b) → ∀ pre, pre <+: l → pre ≠ l → seen pre ∨ pre ∈ a
  | [], _, _, _, h, pre, hpre, hne => Or.inl (h.1 pre hpre hne)
  | k :: a, b, l, seen, h, pre, hpre, hne => by
    rw [List.mem_cons, ← or_assoc]
    exact ParentsFirst.before h.2 pre hpre hne

omit [LinearOrder ν] in
mutual

theorem parentsFirst_preorder : ∀ (t : DirTree ν α β) (base : List ν) (seen : List ν → Prop),
    (∀ pre, pre <+: base → pre ≠ base → seen pre) →
      ParentsFirst seen ((preorder t).map fun p => base ++ p.1)
  | leaf a, base, seen, h => by simpa [preorder, ParentsFirst] using h
  | dir b cs, base, seen, h => by
    rw [preorder, List.map_cons, List.append_nil]
    refine ⟨h, parentsFirst_preorderIn cs base _ fun pre hpre => ?_⟩
    by_cases hne : pre = base
    · exact Or.inr hne
    · exact Or.inl (h pre hpre hne)

theorem parentsFirst_preorderIn : ∀ (cs : List (ν × DirTree ν α β)) (base : List ν) (seen : List ν → Prop),
    (∀ pre, pre <+: base → seen pre) → ParentsFirst seen ((preorderIn cs).map fun p => base ++ p.1)
  | [], _, _, _ => trivial
  | (n, t) :: cs, base, seen, h => by
    have hmap : ((preorder t).map fun p => (n :: p.1, p.2)).map (fun p => base ++ p.1) =
        (preorder t).map fun p => (base ++ [n]) ++ p.1 := by simp
    rw [preorderIn, List.map_append, hmap]
    refine ParentsFirst.append (parentsFirst_preorder t (base ++ [n]) seen fun pre hpre hne => ?_)
      (parentsFirst_preorderIn cs base _ fun pre hpre => Or.inl (h pre hpre))
    rcases List.prefix_concat_iff.mp (by simpa using hpre) with heq | hpre
    · exact absurd (by simpa using heq) hne
    · exact h pre hpre

end

/-! ### What `put` changes -/

/-- The place itself, if its parent is a directory. -/
theorem sub_put_self : ∀ {t : DirTree ν α β} {l : List ν} (x : Option (DirTree ν α β)), Ordered t →
    l ≠ [] → (∃ b, view t l.dropLast = some (.inr b)) → sub (put t l x) l = x
  | t, [], _, _, hl, _ => absurd rfl hl
  | leaf a, [n], _, _, _, ⟨b, hb⟩ => by simp [view, label] at hb
  | leaf a, n :: m :: l, _, _, _, ⟨b, hb⟩ => by simp [view] at hb
  | dir b cs, [n], x, h, _, _ => by
    rw [put, sub_dir_cons, if_pos rfl, child_setChild_self n x h.names]
    cases x <;> simp
  | dir b cs, n :: m :: l, x, h, _, ⟨b', hb⟩ => by
    rw [put, sub_dir_cons, if_neg (List.cons_ne_nil m l), child_setChild_self n _ h.names]
    rw [List.dropLast_cons_cons, view, sub_dir_cons] at hb
    cases hc : child n cs with
    | none => simp [hc] at hb
    | some t =>
      rw [hc] at hb
      exact sub_put_self x (h.mem (mem_of_child hc)) (List.cons_ne_nil m l) ⟨b', hb⟩

/-- Any other place keeps its label. -/
theorem view_put_of_not_prefix : ∀ {t : DirTree ν α β} {l k : List ν} (x : Option (DirTree ν α β)),
    Ordered t → ¬ l <+: k → view (put t l x) k = view t k
  | t, [], k, _, _, hk => absurd (List.nil_prefix) hk
  | leaf a, n :: l, k, _, _, _ => rfl
  | dir b cs, n :: l, [], x, _, _ => rfl
  | dir b cs, n :: l, m :: k, x, h, hk => by
    rw [put, view, view, sub_dir_cons, sub_dir_cons]
    by_cases hn : n = m
    · subst hn
      rw [child_setChild_self n _ h.names]
      have hlk : ¬ l <+: k := fun hp => hk ((List.prefix_cons_inj n).mpr hp)
      have hl : l ≠ [] := fun hl => hlk (hl ▸ List.nil_prefix)
      rw [if_neg hl]
      cases hc : child n cs with
      | none => rfl
      | some t => exact view_put_of_not_prefix x (h.mem (mem_of_child hc)) hlk
    · rw [child_setChild_ne hn]

/-- The view after a replacement. -/
theorem view_put {t : DirTree ν α β} {l : List ν} (x : Option (DirTree ν α β)) (h : Ordered t) (hl : l ≠ [])
    (hp : ∃ b, view t l.dropLast = some (.inr b)) (k : List ν) :
    view (put t l x) k =
      if l <+: k then x.bind fun u => view u (k.drop l.length) else view t k := by
  split
  · rename_i hk
    obtain ⟨s, rfl⟩ := hk
    rw [view, sub_append, sub_put_self x h hl hp, List.drop_left]
    cases x <;> rfl
  · rename_i hk
    exact view_put_of_not_prefix x h hk

end DirTree

end Rsdb
