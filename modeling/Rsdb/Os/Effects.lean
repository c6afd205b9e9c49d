/-
# What a call changes

Each call that succeeds puts one object at one place (`Placed`) or takes one
away, and leaves the rest of the tree as it was. The lemmas below say for each
call where that is and what it asked of the directory there; what a call fails
with is never the end of a stream (`step_error`).
-/
import Rsdb.Os.Resolve

namespace Rsdb

namespace Os

/-! ### Replacing a subtree -/

/-- The working directory, the umask and the user are the same, and the file system. -/
structure SameProcess (os os' : Os) : Prop where
  cwd : os'.cwd = os.cwd
  umask : os'.umask = os.umask
  privileged : os'.privileged = os.privileged
  dirSize : os'.dirSize = os.dirSize

theorem SameProcess.refl (os : Os) : SameProcess os os := ⟨rfl, rfl, rfl, rfl⟩

theorem SameProcess.trans {a b c : Os} (h : SameProcess a b) (h' : SameProcess b c) : SameProcess a c :=
  ⟨h'.cwd.trans h.cwd, h'.umask.trans h.umask, h'.privileged.trans h.privileged, h'.dirSize.trans h.dirSize⟩

theorem SameProcess.symm {a b : Os} (h : SameProcess a b) : SameProcess b a :=
  ⟨h.cwd.symm, h.umask.symm, h.privileged.symm, h.dirSize.symm⟩

theorem SameProcess.start {os os' : Os} (h : SameProcess os os') (p : Path) : os'.start p = os.start p := by
  rw [Os.start, Os.start, h.cwd]

theorem SameProcess.place {os os' : Os} (h : SameProcess os os') (p : Path) : os'.place p = os.place p := by
  rw [Os.place, Os.place, h.start]

theorem SameProcess.may {os os' : Os} (h : SameProcess os os') (mode bit : ℕ) :
    os'.may mode bit = os.may mode bit := by
  rw [Os.may, Os.may, h.privileged]

/-- `obj` at `l`, and everything else in the tree as it was. -/
structure Placed (os os' : Os) (l : Loc) (obj : Obj) : Prop extends SameProcess os os' where
  view : ∀ k, os'.view k = if k = l then some obj else os.view k

theorem Placed.self {os os' : Os} {l : Loc} {obj : Obj} (h : Placed os os' l obj) :
    os'.view l = some obj := by
  rw [h.view, if_pos rfl]

theorem Placed.other {os os' : Os} {l : Loc} {obj : Obj} (h : Placed os os' l obj) {k : Loc} (hk : k ≠ l) :
    os'.view k = os.view k := by
  rw [h.view, if_neg hk]

/-- The same place twice. -/
theorem Placed.trans {a b c : Os} {l : Loc} {x y : Obj} (h : Placed a b l x) (h' : Placed b c l y) :
    Placed a c l y where
  toSameProcess := h.toSameProcess.trans h'.toSameProcess
  view k := by
    by_cases hk : k = l
    · rw [h'.view, if_pos hk, if_pos hk]
    · rw [h'.view, if_neg hk, if_neg hk, h.other hk]

/-- What is there is the root or in a directory. -/
theorem room_of_view {os : Os} {l : Loc} {obj : Obj} (h : os.view l = some obj) :
    l = [] ∨ ∃ mode, os.view l.dropLast = some (.inr mode) := by
  rcases List.eq_nil_or_concat l with rfl | ⟨dir, name, rfl⟩
  · exact Or.inl rfl
  · rw [List.concat_eq_append] at h ⊢
    rw [List.dropLast_concat]
    exact Or.inr (DirTree.exists_dir_of_view h)

/-- Above something there are only directories. -/
theorem dir_above {os : Os} {l : Loc} {obj : Obj} : ∀ {k : Loc}, os.view (l ++ k) = some obj → k ≠ [] →
    ∃ mode, os.view l = some (.inr mode) := by
  intro k h hk
  obtain ⟨n, k, rfl⟩ := List.exists_cons_of_ne_nil hk
  cases hv : os.view l with
  | none => rw [Os.view, DirTree.view_append_eq_none hv] at h; cases h
  | some o =>
    cases o with
    | inl a => rw [Os.view, DirTree.view_append_of_leaf hv] at h; cases h
    | inr mode => exact ⟨mode, rfl⟩

/-- Another object with the same children. -/
theorem placed_put {os : Os} {l : Loc} {t : { t : Tree // t.Ordered }}
    (hroom : l = [] ∨ ∃ mode, os.view l.dropLast = some (.inr mode))
    (hbelow : ∀ n k, t.1.view (n :: k) = os.view (l ++ n :: k)) :
    Placed os (os.put l (some t)) l t.1.label where
  toSameProcess := ⟨rfl, rfl, rfl, rfl⟩
  view k := by
    show (os.tree.put l (some t.1)).view k = _
    have hsame : ∀ k', t.1.view k' = if l ++ k' = l then some t.1.label else os.view (l ++ k') := by
      intro k'
      cases k' with
      | nil => rw [List.append_nil, if_pos rfl, DirTree.view, DirTree.sub_nil, Option.map_some]
      | cons n k' => rw [if_neg (by simp), hbelow]
    rcases eq_or_ne l [] with rfl | hl
    · rw [DirTree.put_nil]
      exact hsame k
    · rw [DirTree.view_put (some t.1) os.ordered hl (hroom.resolve_left hl)]
      by_cases hk : l <+: k
      · obtain ⟨k', rfl⟩ := hk
        rw [if_pos (List.prefix_append _ _), List.drop_left]
        exact hsame k'
      · rw [if_neg hk, if_neg fun heq : k = l => hk (heq ▸ List.prefix_rfl)]
        rfl

/-- A leaf in the place of a leaf. -/
theorem placed_withLeaf {os : Os} {l : Loc} {a : Leaf} (h : os.view l = some (.inl a)) (leaf : Leaf) :
    Placed os (os.withLeaf l leaf) l (.inl leaf) :=
  placed_put (room_of_view h) fun n k => (DirTree.view_append_of_leaf h n k).symm

/-- A leaf where nothing was. -/
theorem placed_withLeaf_missing {os : Os} {l : Loc} (h : (Found.missing l).Sound os) (leaf : Leaf) :
    Placed os (os.withLeaf l leaf) l (.inl leaf) := by
  obtain ⟨hnone, dir, name, mode, rfl, hdir, -⟩ := h
  refine placed_put (Or.inr ⟨mode, by rw [List.dropLast_concat, hdir]⟩) fun n k => ?_
  rw [Os.view, DirTree.view_append_eq_none hnone]
  rfl

/-- An empty directory where nothing was. -/
theorem placed_withDir {os : Os} {l : Loc} (h : (Found.missing l).Sound os) (mode : ℕ) :
    Placed os (os.withDir l mode) l (.inr mode) := by
  obtain ⟨hnone, dir, name, m, rfl, hdir, -⟩ := h
  refine placed_put (Or.inr ⟨m, by rw [List.dropLast_concat, hdir]⟩) fun n k => ?_
  rw [Os.view, DirTree.view_append_eq_none hnone]
  rfl

/-! ### The calls -/

theorem mkdir_eq_ok {os os' : Os} {p : Path} (h : os.mkdir p = .ok os') :
    ∃ l, os.resolve false p = .ok (.missing l) ∧ os.mayChange l = true ∧
      Placed os os' l (.inr (os.masked 0o777)) := by
  unfold mkdir at h
  cases hr : os.resolve false p with
  | error e => simp [hr] at h
  | ok f =>
    cases f with
    | entry l obj => simp [hr] at h
    | missing l =>
      cases hc : os.mayChange l with
      | false => simp [hr, hc] at h
      | true =>
        simp only [hr, hc, ↓reduceIte, Except.ok.injEq] at h
        exact ⟨l, rfl, hc, h ▸ placed_withDir (resolve_sound hr) _⟩

/-- Bits that have been cleared stay as they are. -/
theorem clearedBits_clearedBits (os : Os) (mode : ℕ) : os.clearedBits (os.clearedBits mode) = os.clearedBits mode := by
  unfold clearedBits
  by_cases hprivileged : os.privileged = true
  · rw [if_pos hprivileged, if_pos hprivileged]
  · rw [if_neg hprivileged, if_neg hprivileged]
    set bits := if mode &&& groupExecute = 0 then setuid else setuid ||| setgid with hbits
    have hno : bits &&& groupExecute = 0 := by rw [hbits]; split <;> decide
    have hgroup : (mode ^^^ (mode &&& bits)) &&& groupExecute = mode &&& groupExecute := by
      rw [Nat.and_xor_distrib_right, Nat.and_assoc, hno, Nat.and_zero, Nat.xor_zero]
    have hcleared : (mode ^^^ (mode &&& bits)) &&& bits = 0 := by
      rw [Nat.and_xor_distrib_right, Nat.and_assoc, Nat.and_self, Nat.xor_self]
    rw [hgroup, ← hbits, hcleared, Nat.xor_zero]

theorem clearedBits_of_and {os : Os} {mode : ℕ} (h : mode &&& (setuid ||| setgid) = 0) : os.clearedBits mode = mode := by
  have hsetuid : mode &&& setuid = 0 := by
    have hsub : setuid = (setuid ||| setgid) &&& setuid := by decide
    rw [hsub, ← Nat.and_assoc, h, Nat.zero_and]
  unfold clearedBits
  split
  · rfl
  · split
    · rw [hsetuid, Nat.xor_zero]
    · rw [h, Nat.xor_zero]

theorem clearedBits_masked {os : Os} {mode : ℕ} (h : mode &&& (setuid ||| setgid) = 0) :
    os.clearedBits (os.masked mode) = os.masked mode := by
  refine clearedBits_of_and ?_
  rw [masked, Nat.and_assoc, Nat.and_comm (0o7777 ^^^ _), ← Nat.and_assoc, h, Nat.zero_and]

/-- The bits a file keeps when it is opened for writing, or gets when it is new. -/
def openedMode (os : Os) (mode : ℕ) : Option Obj → ℕ
  | some (.inl (.file m _)) => os.clearedBits m
  | _ => os.masked mode

theorem clearedBits_openedMode {os : Os} {mode : ℕ} (h : mode &&& (setuid ||| setgid) = 0) (old : Option Obj) :
    os.clearedBits (os.openedMode mode old) = os.openedMode mode old := by
  unfold openedMode
  split
  · exact clearedBits_clearedBits os _
  · exact clearedBits_masked h

/-- The bits of a file that some bytes are written to. -/
def writtenBits (os : Os) (mode : ℕ) (data : Bytes) : ℕ := if data = [] then mode else os.clearedBits mode

theorem writtenBits_eq {os : Os} {mode : ℕ} (h : os.clearedBits mode = mode) (data : Bytes) :
    os.writtenBits mode data = mode := by
  rw [writtenBits, h, ite_self]

theorem SameProcess.clearedBits {os os' : Os} (h : SameProcess os os') (mode : ℕ) :
    os'.clearedBits mode = os.clearedBits mode := by
  rw [Os.clearedBits, Os.clearedBits, h.privileged]

/-- A handle was added. -/
def Opened (os os' : Os) (fd : ℕ) (h : Handle) : Prop :=
  fd = os.handles.length ∧ os'.handles = os.handles ++ [h]

theorem Opened.get {os os' : Os} {fd : ℕ} {h : Handle} (ho : Opened os os' fd h) :
    os'.handles[fd]? = some h := by
  rw [ho.1, ho.2]
  simp

theorem createFile_eq_ok {os os' : Os} {l : Loc} {mode fd : ℕ} (hl : (Found.missing l).Sound os)
    (h : os.createFile l mode = .ok (fd, os')) :
    os.mayChange l = true ∧ Placed os os' l (.inl (.file (os.masked mode) [])) ∧
      Opened os os' fd ⟨.inl l, 0⟩ := by
  unfold createFile at h
  cases hc : os.mayChange l with
  | false => simp [hc] at h
  | true =>
    simp only [hc, ↓reduceIte, Except.ok.injEq] at h
    obtain ⟨rfl, rfl⟩ := Prod.mk.inj h
    have hp := placed_withLeaf_missing hl (.file (os.masked mode) [])
    exact ⟨rfl, ⟨⟨rfl, rfl, rfl, rfl⟩, hp.view⟩, rfl, rfl⟩

/-- A file that is opened for writing is empty afterwards. What else can be
opened is a device. -/
theorem openWrite_eq_ok {os os' : Os} {p : Path} {mode fd : ℕ} (h : os.openWrite p mode = .ok (fd, os')) :
    ∃ f, os.resolve true p = .ok f ∧
      ((∃ m, os.view f.loc = some (.inl (.other m))) ∨
        ((∀ m, os.view f.loc ≠ some (.inr m)) ∧
          Placed os os' f.loc (.inl (.file (os.openedMode mode (os.view f.loc)) [])) ∧
          Opened os os' fd ⟨.inl f.loc, 0⟩)) := by
  unfold openWrite at h
  cases hr : os.resolve true p with
  | error e => simp [hr] at h
  | ok f =>
    refine ⟨f, rfl, ?_⟩
    have hs := resolve_sound hr
    cases f with
    | missing l =>
      cases hslash : p.slash with
      | true => simp [hr, hslash] at h
      | false =>
        simp only [hr, hslash] at h
        obtain ⟨-, hplaced, hopened⟩ := createFile_eq_ok hs h
        have hnone : os.view l = none := hs.1
        right
        simp only [Found.loc, hnone]
        exact ⟨by simp, hplaced, hopened⟩
    | entry l obj =>
      have hv : os.view l = some obj := hs
      cases obj with
      | inr m => simp [hr] at h
      | inl leaf =>
        cases leaf with
        | symlink target => simp [hr] at h
        | other m => exact Or.inl ⟨m, hv⟩
        | file m content =>
          cases hslash : p.slash with
          | true => simp [hr, hslash] at h
          | false =>
            cases hm : os.may m ownerWrite with
            | false => simp [hr, hslash, hm] at h
            | true =>
              simp only [hr, hslash, hm, ↓reduceIte, Bool.false_eq_true, Except.ok.injEq] at h
              obtain ⟨rfl, rfl⟩ := Prod.mk.inj h
              have hp := placed_withLeaf hv (.file (os.clearedBits m) [])
              right
              simp only [Found.loc, hv]
              exact ⟨by simp, ⟨⟨rfl, rfl, rfl, rfl⟩, hp.view⟩, rfl, rfl⟩

/-- What is there anyway. -/
theorem Placed.of_view {os : Os} {l : Loc} {obj : Obj} (hv : os.view l = some obj) : Placed os os l obj where
  toSameProcess := .refl os
  view k := by
    by_cases hk : k = l
    · rw [if_pos hk, hk, hv]
    · rw [if_neg hk]

/-- A write at the end of a file adds to it. -/
theorem write_at_end {os : Os} {fd : ℕ} {l : Loc} {m : ℕ} {content : Bytes}
    (hfd : os.handles[fd]? = some ⟨.inl l, content.length⟩) (hv : os.view l = some (.inl (.file m content)))
    (data : Bytes) :
    ∃ os', os.write fd data = .ok os' ∧ Placed os os' l (.inl (.file (os.writtenBits m data) (content ++ data))) ∧
      os'.handles[fd]? = some ⟨.inl l, (content ++ data).length⟩ := by
  have hover : overwrite content content.length data = content ++ data := by
    rw [overwrite, resize, List.take_length, List.drop_of_length_le (by omega)]
    simp
  have hc : os.contentOf ⟨.inl l, content.length⟩ = some content := by simp only [contentOf, hv]
  have hset : os.setContent ⟨.inl l, content.length⟩ (content ++ data) =
      os.withLeaf l (.file (os.clearedBits m) (content ++ data)) := by simp only [setContent, hv]
  rcases eq_or_ne data [] with rfl | hne
  · rw [writtenBits, if_pos rfl, List.append_nil]
    exact ⟨os, by simp only [write, hfd, hc, ↓reduceIte], .of_view hv, hfd⟩
  rw [writtenBits, if_neg hne]
  refine ⟨_, by simp only [write, hfd, hc, hover, hset, if_neg hne]; rfl, ?_, ?_⟩
  · exact ⟨⟨rfl, rfl, rfl, rfl⟩, (placed_withLeaf hv (.file (os.clearedBits m) (content ++ data))).view⟩
  · obtain ⟨hlt, -⟩ := List.getElem?_eq_some_iff.mp hfd
    show (os.handles.set fd _)[fd]? = _
    rw [List.getElem?_set_self hlt, List.length_append]

/-- An object with other permission bits. -/
def objWithMode (mode : ℕ) : Obj → Obj
  | .inl (.file _ content) => .inl (.file mode content)
  | .inl (.symlink target) => .inl (.symlink target)
  | .inl (.other _) => .inl (.other mode)
  | .inr _ => .inr mode

theorem label_withMode (mode : ℕ) : ∀ t : Tree, (withMode mode t).label = objWithMode mode t.label
  | .leaf (.file _ _) | .leaf (.symlink _) | .leaf (.other _) | .dir _ _ => rfl

theorem view_withMode_cons (mode : ℕ) (n : Name) (k : Loc) :
    ∀ t : Tree, (withMode mode t).view (n :: k) = t.view (n :: k)
  | .leaf (.file _ _) | .leaf (.symlink _) | .leaf (.other _) | .dir _ _ => rfl

theorem sub_eq_some {os : Os} {l : Loc} {obj : Obj} (h : os.view l = some obj) :
    ∃ t, os.sub l = some t ∧ os.tree.sub l = some t.1 ∧ t.1.label = obj := by
  rw [Os.view, DirTree.view, Option.map_eq_some_iff] at h
  obtain ⟨t, ht, hlabel⟩ := h
  refine ⟨⟨t, os.ordered.sub ht⟩, ?_, ht, hlabel⟩
  simp [Os.sub, ht]

/-- What holds of every node of the tree holds of what is seen. -/
theorem forall_view {os : Os} {P : Loc → Obj → Prop} (h : ∀ p ∈ os.tree.preorder, P p.1 p.2.label) {k : Loc} {obj : Obj}
    (hv : os.view k = some obj) : P k obj := by
  rw [Os.view, DirTree.view, Option.map_eq_some_iff] at hv
  obtain ⟨t, ht, rfl⟩ := hv
  exact h (k, t) ((DirTree.mem_preorder os.ordered).mpr ht)

/-- A directory's children are what is one name below it. -/
theorem children_of_dir {os : Os} {l : Loc} {mode : ℕ} (hv : os.view l = some (.inr mode)) :
    ∃ cs, os.tree.sub l = some (.dir mode cs) ∧ DirTree.NamesOrdered cs ∧
      ∀ n, os.view (l ++ [n]) = (DirTree.child n cs).map DirTree.label := by
  obtain ⟨⟨t, hord⟩, -, htree, hlabel⟩ := sub_eq_some hv
  cases t with
  | leaf a => cases hlabel
  | dir m cs =>
    obtain rfl : m = mode := Sum.inr.inj hlabel
    refine ⟨cs, htree, hord.names, fun n => ?_⟩
    rw [Os.view, DirTree.view_of_sub htree, DirTree.view, DirTree.sub_dir_cons]
    cases DirTree.child n cs <;> simp

theorem chmod_eq {os : Os} {p : Path} (mode : ℕ) {l : Loc} {obj : Obj} (h : os.lookup true p = .ok (l, obj)) :
    ∃ os', os.chmod p mode = .ok os' ∧ Placed os os' l (objWithMode mode obj) ∧ os'.handles = os.handles := by
  obtain ⟨-, hv, -⟩ := lookup_eq_ok h
  obtain ⟨t, hsub, htree, rfl⟩ := sub_eq_some hv
  refine ⟨os.put l (some ⟨withMode mode t.1, ordered_withMode mode t.2⟩),
    by simp only [chmod, h, hsub, Option.map_some], ?_, rfl⟩
  rw [← label_withMode]
  refine placed_put (room_of_view hv) fun n k => ?_
  rw [view_withMode_cons]
  exact (DirTree.view_of_sub htree (n :: k)).symm

theorem chmod_eq_ok {os os' : Os} {p : Path} {mode : ℕ} (h : os.chmod p mode = .ok os') :
    ∃ l obj, os.lookup true p = .ok (l, obj) ∧ Placed os os' l (objWithMode mode obj) := by
  cases hl : os.lookup true p with
  | error e => simp [chmod, hl] at h
  | ok r =>
    obtain ⟨os'', hok, hplaced, -⟩ := chmod_eq mode hl
    rw [h] at hok
    obtain rfl := Except.ok.inj hok
    exact ⟨r.1, r.2, rfl, hplaced⟩

/-! ### What a call fails with -/

theorem walkWith_error {os : Os} {follow : Bool} {jump : List Comp → Loc → Except IoErrorKind Found}
    (hjump : ∀ cs l, jump cs l ≠ .error .unexpectedEof) :
    ∀ (cs : List Comp) (l : Loc), walkWith os follow jump cs l ≠ .error .unexpectedEof
  | [], l => by
    unfold walkWith
    cases os.view l <;> simp
  | c :: cs, l => by
    have ih : ∀ l, walkWith os follow jump cs l ≠ .error .unexpectedEof := walkWith_error hjump cs
    unfold walkWith
    cases os.view l with
    | none => simp
    | some obj =>
      cases obj with
      | inl a => simp
      | inr mode =>
        simp only
        split
        · simp
        · cases c with
          | cur => exact ih _
          | parent => exact ih _
          | normal name =>
            simp only
            split
            · split <;> simp
            · split
              · simp
              · exact hjump _ _
            · exact ih _

theorem walk_error (os : Os) (follow : Bool) : ∀ (links : ℕ) (cs : List Comp) (l : Loc),
    walk os follow links cs l ≠ .error .unexpectedEof
  | 0 => walkWith_error (by simp)
  | links + 1 => walkWith_error (walk_error os follow links)

theorem resolve_error (os : Os) (follow : Bool) (p : Path) : os.resolve follow p ≠ .error .unexpectedEof := by
  unfold resolve
  split
  · simp
  · exact walk_error _ _ _ _ _

theorem lookup_error (os : Os) (follow : Bool) (p : Path) : os.lookup follow p ≠ .error .unexpectedEof := by
  have h := resolve_error os (follow || p.slash) p
  unfold lookup
  split
  · rename_i e he
    rw [he] at h
    simpa using h
  · simp
  · split <;> simp

theorem openWrite_error (os : Os) (p : Path) (mode : ℕ) : os.openWrite p mode ≠ .error .unexpectedEof := by
  have h := resolve_error os true p
  unfold openWrite createFile
  split
  · rename_i e he
    rw [he] at h
    simpa using h
  all_goals repeat' split
  all_goals simp

theorem mkdir_error (os : Os) (p : Path) : os.mkdir p ≠ .error .unexpectedEof := by
  have h := resolve_error os false p
  unfold mkdir
  split
  · rename_i e he
    rw [he] at h
    simpa using h
  · simp
  · split <;> simp

theorem chmod_error (os : Os) (p : Path) (mode : ℕ) : os.chmod p mode ≠ .error .unexpectedEof := by
  have h := lookup_error os true p
  unfold chmod
  split
  · rename_i e he
    rw [he] at h
    simpa using h
  · simp

end Os

end Rsdb
