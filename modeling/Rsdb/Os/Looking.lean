/-
# Looking below a directory

What a listing of a directory gives, and what a path to one of its entries leads
to: the entry itself, as links at the end are not followed. Where everything
from a directory on can be read (`Readable`), nothing of it is refused.
-/
import Rsdb.Lib.Enumeration
import Rsdb.Os.RemoveDirAll

namespace Rsdb

namespace Os

/-- Every directory from `l` on can be listed and searched, and every file be read. -/
structure Readable (os : Os) (l : Loc) : Prop where
  dir : ∀ k mode, os.view (l ++ k) = some (.inr mode) → os.may mode ownerRead = true ∧ os.may mode ownerSearch = true
  file : ∀ k mode content, os.view (l ++ k) = some (.inl (.file mode content)) → os.may mode ownerRead = true

theorem Readable.child {os : Os} {l : Loc} (h : os.Readable l) (n : Name) : os.Readable (l ++ [n]) where
  dir k mode hk := h.dir (n :: k) mode (by rwa [List.append_assoc] at hk)
  file k mode content hk := h.file (n :: k) mode content (by rwa [List.append_assoc] at hk)

theorem readable_of_privileged {os : Os} (h : os.privileged = true) (l : Loc) : os.Readable l where
  dir _ _ _ := by simp [may, h]
  file _ _ _ _ := by simp [may, h]

/-- A directory is no link. -/
theorem lookup_of_dir {os : Os} {p : Path} {l : Loc} {mode : ℕ} (h : os.lookup false p = .ok (l, .inr mode)) :
    os.lookup true p = .ok (l, .inr mode) := by
  rw [lookup_follow, h]
  intro loc target heq
  rw [h] at heq
  cases heq

section

variable {os : Os} {p : Path} {l : Loc} {mode : ℕ} (hp : os.lookup true p = .ok (l, .inr mode))

include hp

/-- The names in a directory that can be read, in their order. -/
theorem step_readDir (hread : os.may mode ownerRead = true) :
    ∃ names, step (.readDir p) os = (.ok names, os) ∧ Ascending names ∧
      ∀ n, n ∈ names ↔ ∃ obj, os.view (l ++ [n]) = some obj := by
  obtain ⟨cs, htree, hnames, hview⟩ := children_of_dir (lookup_eq_ok hp).2.1
  have hlist : os.readDir p = .ok (cs.map Prod.fst) := by
    simp only [readDir, hp, hread, htree, ↓reduceIte, Option.elim_some, DirTree.children]
  refine ⟨cs.map Prod.fst, ?_, List.pairwise_map.mpr hnames, fun n => ?_⟩
  · show os.answer ((os.readDir p).map fun names => (names, os)) = _
    rw [hlist]
    rfl
  · rw [hview]
    constructor
    · intro hmem
      obtain ⟨⟨n', t⟩, hc, rfl⟩ := List.mem_map.mp hmem
      exact ⟨t.label, by rw [DirTree.child_of_mem hnames hc, Option.map_some]⟩
    · rintro ⟨obj, hobj⟩
      obtain ⟨t, ht, -⟩ := Option.map_eq_some_iff.mp hobj
      exact List.mem_map.mpr ⟨(n, t), DirTree.mem_of_child ht, rfl⟩

theorem step_readDir_denied (hread : os.may mode ownerRead = false) :
    step (.readDir p) os = (.error IoErrorKind.permissionDenied.toError, os) := by
  have hdenied : os.readDir p = .error .permissionDenied := by
    simp only [readDir, hp, hread, Bool.false_eq_true, ↓reduceIte]
  show os.answer ((os.readDir p).map fun names => (names, os)) = _
  rw [hdenied]
  rfl

/-- An entry of a directory that can be searched. -/
theorem lookup_push (hsearch : os.may mode ownerSearch = true) {n : Name} {obj : Obj}
    (hv : os.view (l ++ [n]) = some obj) : os.lookup false (p.push n) = .ok (l ++ [n], obj) := by
  have hdir := (lookup_eq_ok hp).2.1
  have hres : os.resolve false (below p [n]) = .ok (.entry (l ++ [n]) obj) := by
    refine resolve_below_eq (leads_of_lookup hp) (List.cons_ne_nil n []) fun jump => ?_
    rw [List.map_cons, List.map_nil]
    by_cases hlink : ∃ target, obj = .inl (.symlink target)
    · obtain ⟨target, rfl⟩ := hlink
      unfold walkWith
      simp [hdir, hsearch, hv]
    · rw [walkWith_next hdir hsearch hv fun target heq => hlink ⟨target, heq⟩, walkWith, hv]
  have hpush : p.push n = below p [n] := rfl
  simp [lookup, hpush, below_slash p (List.cons_ne_nil n []), hres]

theorem lookup_push_denied (hsearch : os.may mode ownerSearch = false) (n : Name) :
    os.lookup false (p.push n) = .error .permissionDenied := by
  have hres : os.resolve false (below p [n]) = .error .permissionDenied :=
    resolve_below_eq (leads_of_lookup hp) (List.cons_ne_nil n []) fun jump =>
      walkWith_denied (lookup_eq_ok hp).2.1 hsearch (.normal n) []
  have hpush : p.push n = below p [n] := rfl
  simp [lookup, hpush, below_slash p (List.cons_ne_nil n []), hres]

/-- A directory in it. -/
theorem lookup_push_dir (hsearch : os.may mode ownerSearch = true) {n : Name} {m : ℕ}
    (hv : os.view (l ++ [n]) = some (.inr m)) : os.lookup true (p.push n) = .ok (l ++ [n], .inr m) := by
  exact lookup_of_dir (lookup_push hp hsearch hv)

end

end Os

end Rsdb
