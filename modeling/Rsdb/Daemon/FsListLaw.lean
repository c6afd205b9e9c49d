/-
# What `fs.list` lists

A listing of a directory has an entry for each place below it that the options
ask for, in the order of a walk (`Enumerates`), and nothing else: the depth
counts the names below the directory (`FsListing.Reaches`), and a hidden name
hides what is below it too (`FsListing.Shows`). Links are listed and not
followed, as the places are those of the tree.

The walk is taken apart by directories: what one directory gives, if its
directories give what they should (`wp_collectChildren`), and from it by
induction on the levels what a tree gives (`wp_collectFsEntries`). A walk is cut
short by what the process may not read and by the bounds of the model, and by
nothing else (`Walkable`).
-/
import Rsdb.Os.Looking
import Rsdb.Os.PathText
import Rsdb.Daemon.FsOps

namespace Rsdb

open Os (SameTree ownerRead ownerSearch)
open Prog (run run_bind_ok wp wp_bind wp_call wp_mono wp_iff_run)

namespace Daemon

variable {env : FsEnv}

/-! ### What the options ask for -/

/-- How many names below the directory are listed. -/
def FsListing.Reaches (listing : FsListing) (length : ℕ) : Prop :=
  match listing.recursive, listing.maxDepth with
  | false, _ => length ≤ 1
  | true, none => True
  | true, some limit => length ≤ max limit 1

/-- A name that hides neither itself nor what is below it. -/
def FsListing.Shows (listing : FsListing) (name : Name) : Prop :=
  listing.includeHidden = true ∨ isHidden name = false

/-- What is listed below a directory that is itself `depth` names below the listed one. -/
def FsListing.Keeps (listing : FsListing) (depth : ℕ) (k : Loc) : Prop :=
  k ≠ [] ∧ listing.Reaches (depth + k.length) ∧ ∀ name ∈ k, listing.Shows name

theorem FsListing.reaches_one (listing : FsListing) : listing.Reaches 1 := by
  unfold FsListing.Reaches
  split
  · exact Nat.le_refl 1
  · trivial
  · exact le_max_right _ 1

/-- A walk goes down where there is more to list. -/
theorem FsListing.canDescend_iff (listing : FsListing) {metadata : Metadata} (hdir : metadata.isDir = true) (depth : ℕ) :
    listing.canDescend metadata (depth + 1) = true ↔ listing.Reaches (depth + 2) := by
  unfold FsListing.canDescend FsListing.Reaches
  rw [hdir, Bool.and_true, Bool.and_eq_true]
  cases hrec : listing.recursive with
  | false => simp
  | true =>
    cases hmax : listing.maxDepth with
    | none => simp
    | some limit =>
      simp only [Option.all_some, decide_eq_true_eq, true_and]
      omega

theorem FsListing.Reaches.mono {listing : FsListing} {m n : ℕ} (h : listing.Reaches n) (hle : m ≤ n) :
    listing.Reaches m := by
  unfold FsListing.Reaches at h ⊢
  split at h
  · exact hle.trans h
  · trivial
  · exact hle.trans h

theorem FsListing.not_shows (listing : FsListing) (name : Name) :
    (isHidden name && !listing.includeHidden) = true ↔ ¬ listing.Shows name := by
  unfold FsListing.Shows
  cases isHidden name <;> cases listing.includeHidden <;> simp

/-! ### One entry -/

/-- The digest of what is there, if one is asked for. -/
def digestOf (sha256 : Bytes → Str) : Option HashAlgorithm → Obj → Option Str
  | some .sha256, .inl (.file _ content) => some (sha256 content)
  | _, _ => none

/-- The entry of what is some names below a path to a place. -/
def listed (env : FsEnv) (listing : FsListing) (os : Os) (path : Path) (l : Loc) (item : Loc × Obj) : AgentFsListEntry :=
  ⟨utf8Lossy (item.1.foldl Path.push path).display, item.2.kind, os.size (l ++ item.1) item.2,
    digestOf env.sha256 listing.hash item.2⟩

theorem listed_push (listing : FsListing) (os : Os) (path : Path) (l : Loc) (name : Name) (item : Loc × Obj) :
    listed env listing os (path.push name) (l ++ [name]) item = listed env listing os path l (name :: item.1, item.2) := by
  rw [listed, listed, List.append_assoc]
  rfl

/-- A walk of so many levels from `l` on is allowed, and within the bounds. -/
structure Walkable (reads : ℕ) (os : Os) (l : Loc) (levels : ℕ) : Prop where
  readable : os.Readable l
  shallow : os.Shallow l levels
  short : ∀ k mode content, os.view (l ++ k) = some (.inl (.file mode content)) → content.length < reads

theorem Walkable.child {reads : ℕ} {os : Os} {l : Loc} {levels : ℕ} (h : Walkable reads os l (levels + 1)) (n : Name) :
    Walkable reads os (l ++ [n]) levels where
  readable := h.readable.child n
  shallow := h.shallow.child n
  short k mode content hk := h.short (n :: k) mode content (by rwa [List.append_assoc] at hk)

section

variable {D : Prop} {os t : Os} {p : Path} {l : Loc}

theorem wp_hashOf {sha256 : Bytes → Str} {fuel : ℕ} {obj : Obj} (hp : os.lookup false p = .ok (l, obj))
    (hD : D → ∀ mode content, obj = .inl (.file mode content) →
      os.may mode ownerRead = true ∧ content.length < fuel)
    (hash : Option HashAlgorithm) (hsame : SameTree os t) :
    wp Os.step (fun digest t' => digest = digestOf sha256 hash obj ∧ SameTree os t') (fun _ _ => ¬ D)
      (hashOf sha256 fuel p (os.metadata l obj) hash) t := by
  cases hash with
  | none => exact ⟨rfl, hsame⟩
  | some algorithm =>
    cases algorithm
    by_cases hfile : (os.metadata l obj).isFile = true
    · obtain ⟨mode, content, rfl⟩ := Obj.of_isFile hfile
      have hfollow : t.lookup true p = .ok (l, .inl (.file mode content)) := by
        rw [hsame.lookup]
        exact Os.lookup_of_file hp
      rw [hashOf_of_isFile hfile, wp_bind, wp_iff_run]
      refine ⟨fun digest t' hrun => ?_, fun err t' hrun hd => ?_⟩
      · obtain ⟨l', mode', content', hlookup, rfl⟩ := sha256Path_eq_ok hrun
        rw [hfollow] at hlookup
        cases hlookup
        have hsame' := Os.run_readsOnly (sha256Path_readsOnly sha256 fuel p) t
        rw [hrun] at hsame'
        exact ⟨rfl, hsame.trans hsame'⟩
      · obtain ⟨hmay, hshort⟩ := hD hd mode content rfl
        obtain ⟨result, t'', hrun', -, hok⟩ :=
          @run_sha256Path sha256 fuel _ _ _ _ _ hfollow ((hsame.toSameProcess.may mode ownerRead).trans hmay)
        obtain ⟨digest, rfl⟩ := hok hshort
        rw [hrun] at hrun'
        cases hrun'
    · have hnone : digestOf sha256 (some .sha256) obj = none := by
        match obj with
        | .inl (.file mode content) => exact absurd rfl hfile
        | .inl (.symlink target) => rfl
        | .inl (.other mode) => rfl
        | .inr mode => rfl
      rw [hashOf_of_not_isFile (by simpa using hfile)]
      exact ⟨hnone.symm, hsame⟩

theorem wp_buildFsEntry {obj : Obj} (hp : os.lookup false p = .ok (l, obj))
    (hD : D → ∀ mode content, obj = .inl (.file mode content) →
      os.may mode ownerRead = true ∧ content.length < env.reads)
    (listing : FsListing) (hsame : SameTree os t) :
    wp Os.step (fun entry t' => entry = listed env listing os p l ([], obj) ∧ SameTree os t') (fun _ _ => ¬ D)
      (buildFsEntry env p (os.metadata l obj) listing.hash) t := by
  rw [buildFsEntry, wp_bind]
  refine wp_mono (fun digest t' ⟨hdigest, hsame'⟩ => ?_) (wp_hashOf hp hD listing.hash hsame)
  exact ⟨by rw [hdigest, listed, List.append_nil]; rfl, hsame'⟩

end

/-! ### A directory -/

theorem sorted_of_ascending {α : Type} [LinearOrder α] {names : List α} (h : Ascending names) : sorted names = names :=
  (h.imp fun hlt => hlt.le).insertionSort_eq

/-- The entries of what is kept below a directory. -/
def Collected (env : FsEnv) (listing : FsListing) (os : Os) (p : Path) (l : Loc) (keep : Loc → Prop)
    (entries : List AgentFsListEntry) : Prop :=
  ∃ items, Enumerates (fun k => os.view (l ++ k)) keep items ∧ entries = items.map (listed env listing os p l)

/-- What is kept below a child, from the directory. -/
theorem FsListing.keeps_cons {listing : FsListing} {n : Name} (hshows : listing.Shows n) (depth : ℕ) {k : Loc}
    (hk : k ≠ []) : listing.Keeps depth (n :: k) ↔ listing.Keeps (depth + 1) k := by
  have hlen : depth + (n :: k).length = depth + 1 + k.length := by rw [List.length_cons]; omega
  simp only [FsListing.Keeps, hlen, List.forall_mem_cons, ne_eq, reduceCtorEq, not_false_eq_true, true_and, hshows, hk]

section

variable {D : Prop} {os : Os} {p : Path} {l : Loc} {mode : ℕ} {listing : FsListing}
  {collect : Path → ℕ → Act (List AgentFsListEntry)} {depth : ℕ}

/-- What is below a child: nothing that is kept, where the walk does not go down. -/
theorem collected_below {n : Name} {obj : Obj} (hv : os.view (l ++ [n]) = some obj)
    (hstop : listing.canDescend (os.metadata (l ++ [n]) obj) (depth + 1) = false) :
    Enumerates (fun k => os.view (l ++ [n] ++ k)) (fun k => k ≠ [] ∧ listing.Keeps depth (n :: k)) [] := by
  refine Enumerates.nil fun k x ⟨hne, hkeep⟩ hk => ?_
  obtain ⟨m, k, rfl⟩ := List.exists_cons_of_ne_nil hne
  rcases obj with leaf | mode
  · rw [Os.view, DirTree.view_append_of_leaf hv] at hk
    cases hk
  · have hreach : listing.Reaches (depth + 2) :=
      hkeep.2.1.mono (by rw [List.length_cons, List.length_cons]; omega)
    have hdown : listing.canDescend (os.metadata (l ++ [n]) (.inr mode)) (depth + 1) = true :=
      (listing.canDescend_iff rfl depth).mpr hreach
    rw [hstop] at hdown
    cases hdown

/-- What is collected below a child, in the terms of its directory. -/
theorem wp_below {n : Name} {obj : Obj} (hv : os.view (l ++ [n]) = some obj) (hshows : listing.Shows n)
    (hcollect : ∀ m, os.view (l ++ [n]) = some (.inr m) → listing.Reaches (depth + 2) → ∀ t, SameTree os t →
      wp Os.step (fun entries t' => Collected env listing os (p.push n) (l ++ [n]) (listing.Keeps (depth + 1)) entries ∧
        SameTree os t') (fun _ _ => ¬ D) (collect (p.push n) (depth + 1)) t) (t : Os) (hsame : SameTree os t) :
    wp Os.step (fun below t' => (∃ items, Enumerates (fun k => os.view (l ++ n :: k))
        (fun k => k ≠ [] ∧ listing.Keeps depth (n :: k)) items ∧ below = items.map (listed env listing os (p.push n) (l ++ [n]))) ∧
        SameTree os t') (fun _ _ => ¬ D)
      (if listing.canDescend (os.metadata (l ++ [n]) obj) (depth + 1) then collect (p.push n) (depth + 1) else pure []) t := by
  have hassoc : (fun k => os.view (l ++ n :: k)) = fun k => os.view (l ++ [n] ++ k) := by simp
  rw [hassoc]
  by_cases hdown : listing.canDescend (os.metadata (l ++ [n]) obj) (depth + 1) = true
  · rw [if_pos hdown]
    have hdir : obj.isDir = true := by
      unfold FsListing.canDescend at hdown
      rw [Bool.and_eq_true, Bool.and_eq_true, Os.isDir_metadata] at hdown
      exact hdown.1.2
    obtain ⟨m, rfl⟩ := Obj.of_isDir hdir
    refine wp_mono (fun below t' ⟨⟨items, hitems, hbelow⟩, hsame'⟩ => ⟨⟨items, ?_, hbelow⟩, hsame'⟩)
      (hcollect m hv ((listing.canDescend_iff rfl depth).mp hdown) t hsame)
    refine hitems.congr fun k x _ => ?_
    by_cases hk : k = []
    · simp [hk, FsListing.Keeps]
    · rw [← listing.keeps_cons hshows depth hk]
      simp [hk]
  · rw [if_neg hdown]
    exact ⟨⟨[], collected_below hv (by simpa using hdown), rfl⟩, hsame⟩

/-- The children of a directory in turn, where what is below a directory among them is collected. -/
theorem wp_collectChildren (hp : os.lookup true p = .ok (l, .inr mode)) (hreach : listing.Reaches (depth + 1))
    {levels : ℕ} (hD : D → Walkable env.reads os l (levels + 1))
    (hcollect : ∀ n m, os.view (l ++ [n]) = some (.inr m) → os.lookup true (p.push n) = .ok (l ++ [n], .inr m) →
      listing.Reaches (depth + 2) → ∀ t, SameTree os t →
        wp Os.step (fun entries t' => Collected env listing os (p.push n) (l ++ [n]) (listing.Keeps (depth + 1)) entries ∧
          SameTree os t') (fun _ _ => ¬ D) (collect (p.push n) (depth + 1)) t) :
    ∀ {names : List Name}, Ascending names → (∀ n ∈ names, ∃ obj, os.view (l ++ [n]) = some obj) →
      ∀ t, SameTree os t →
        wp Os.step (fun entries t' => Collected env listing os p l
            (fun k => (∃ n ∈ names, k.head? = some n) ∧ listing.Keeps depth k) entries ∧ SameTree os t')
          (fun _ _ => ¬ D) (collectChildren env listing collect p depth names) t
  | [], _, _, t, hsame => ⟨⟨[], Enumerates.nil (by simp), rfl⟩, hsame⟩
  | n :: names, hord, hmem, t, hsame => by
    obtain ⟨hlt, hord'⟩ := List.pairwise_cons.mp hord
    have ih := wp_collectChildren hp hreach hD hcollect hord' fun m hm => hmem m (List.mem_cons_of_mem n hm)
    obtain ⟨obj, hv⟩ := hmem n List.mem_cons_self
    rw [collectChildren]
    by_cases hshows : listing.Shows n
    · rw [if_neg fun h => (listing.not_shows n).mp h hshows]
      show wp Os.step _ _ (.call (.lstat (p.push n)) _) t
      rw [wp_call, hsame.step_lstat]
      cases hsearch : os.may mode ownerSearch with
      | false =>
        rw [Os.lookup_push_denied hp hsearch]
        intro hd
        have hdir := (hD hd).readable.dir [] mode (by rw [List.append_nil]; exact (Os.lookup_eq_ok hp).2.1)
        rw [hsearch] at hdir
        cases hdir.2
      | true =>
        have hchild := Os.lookup_push hp hsearch hv
        rw [hchild]
        show wp Os.step _ _ (buildFsEntry env (p.push n) (os.metadata (l ++ [n]) obj) listing.hash >>= _) t
        have hfile : D → ∀ mode content, obj = .inl (.file mode content) →
            os.may mode ownerRead = true ∧ content.length < env.reads := by
          rintro hd m content rfl
          exact ⟨(hD hd).readable.file [n] m content hv, (hD hd).short [n] m content hv⟩
        have hself : listing.Keeps depth [n] := ⟨List.cons_ne_nil n [], hreach, by simpa using hshows⟩
        rw [wp_bind]
        refine wp_mono (fun entry t₁ hbuilt => wp_bind.mpr ?_) (wp_buildFsEntry hchild hfile listing hsame)
        obtain ⟨hentry, hsame₁⟩ := hbuilt
        refine wp_mono (fun below t₂ hcollected => wp_bind.mpr ?_)
          (wp_below hv hshows (fun m hm => hcollect n m hm (Os.lookup_push_dir hp hsearch hm)) t₁ hsame₁)
        obtain ⟨⟨items, hitems, hbelow⟩, hsame₂⟩ := hcollected
        refine wp_mono (fun rest t₃ hcollected' => ?_) (ih t₂ hsame₂)
        obtain ⟨⟨restItems, hrestItems, hrest⟩, hsame₃⟩ := hcollected'
        refine ⟨⟨_, hitems.child hlt hself hv hrestItems, ?_⟩, hsame₃⟩
        rw [hentry, hbelow, hrest, List.map_append, List.map_cons, List.map_map, listed_push]
        exact congrArg (_ :: · ++ _) (List.map_congr_left fun item _ => listed_push listing os p l n item)
    · rw [if_pos ((listing.not_shows n).mpr hshows)]
      refine wp_mono (fun entries t' hcollected => ?_) (ih t hsame)
      obtain ⟨⟨items, hitems, hentries⟩, hsame'⟩ := hcollected
      exact ⟨⟨items, hitems.skip hlt fun k hk => hshows (hk.2.2 n List.mem_cons_self), hentries⟩, hsame'⟩

/-- A directory at `depth`, if the walk is so far. -/
theorem wp_collectFsEntries {D : Prop} {os : Os} {listing : FsListing} : ∀ {levels : ℕ} {p : Path} {l : Loc} {mode depth : ℕ},
    os.lookup true p = .ok (l, .inr mode) → listing.Reaches (depth + 1) → (D → Walkable env.reads os l levels) →
      ∀ t, SameTree os t →
        wp Os.step (fun entries t' => Collected env listing os p l (listing.Keeps depth) entries ∧ SameTree os t')
          (fun _ _ => ¬ D) (collectFsEntries env listing levels p depth) t
  | 0, p, l, mode, depth, hp, _, hD, t, _ => fun hd => by
    have hlt := (hD hd).shallow [] (.inr mode) (by rw [List.append_nil]; exact (Os.lookup_eq_ok hp).2.1)
    exact Nat.not_lt_zero _ hlt
  | levels + 1, p, l, mode, depth, hp, hreach, hD, t, hsame => by
    have hpt : t.lookup true p = .ok (l, .inr mode) := (hsame.lookup true p).trans hp
    show wp Os.step _ _ (.call (.readDir p) _) t
    rw [wp_call]
    cases hread : t.may mode ownerRead with
    | false =>
      rw [Os.step_readDir_denied hpt hread]
      intro hd
      have hdir := (hD hd).readable.dir [] mode (by rw [List.append_nil]; exact (Os.lookup_eq_ok hp).2.1)
      rw [← hsame.toSameProcess.may, hread] at hdir
      cases hdir.1
    | true =>
      obtain ⟨names, hanswer, hord, hmem⟩ := Os.step_readDir hpt hread
      rw [hanswer]
      show wp Os.step _ _ (collectChildren env listing (collectFsEntries env listing levels) p depth (sorted names)) t
      rw [sorted_of_ascending hord]
      have hmem' : ∀ n, n ∈ names ↔ ∃ obj, os.view (l ++ [n]) = some obj := fun n => by rw [hmem, hsame.view]
      have hchildren := wp_collectChildren hp hreach hD
        (fun n m _ hpush hdeep => wp_collectFsEntries hpush hdeep fun hd => (hD hd).child n) hord
        (fun n hn => (hmem' n).mp hn) t hsame
      refine wp_mono (fun entries t' ⟨⟨items, hitems, hentries⟩, hsame'⟩ => ⟨⟨items, ?_, hentries⟩, hsame'⟩) hchildren
      refine hitems.congr fun k x hk => ⟨fun hkeep => ?_, fun hkeep => hkeep.2⟩
      obtain ⟨n, k', rfl⟩ := List.exists_cons_of_ne_nil hkeep.1
      have hk' : os.view (l ++ [n] ++ k') = some x := by rwa [List.append_assoc]
      exact ⟨⟨n, (hmem' n).mpr (DirTree.exists_view_of_append hk'), rfl⟩, hkeep⟩

end

/-! ### The whole listing -/

/-- What a request lists below a directory. -/
def FsListing.Wants (listing : FsListing) (k : Loc) : Prop :=
  k ≠ [] ∧ listing.Reaches k.length ∧ (listing.includeHidden = false → ∀ name ∈ k, name.1.head? ≠ some 46)

instance (listing : FsListing) (length : ℕ) : Decidable (listing.Reaches length) := by
  unfold FsListing.Reaches
  split <;> infer_instance

instance (listing : FsListing) (k : Loc) : Decidable (listing.Wants k) := by
  unfold FsListing.Wants
  infer_instance

/-- The entry of what a path leads to. -/
def listedAt (env : FsEnv) (listing : FsListing) (os : Os) (path : Path) (l : Loc) (obj : Obj) : AgentFsListEntry :=
  ⟨path.display, obj.kind, os.size l obj, digestOf env.sha256 listing.hash obj⟩

/-- The entries are those of a path: below a directory all that is wanted, in
order and each once, and for anything else the one of the path itself. -/
def ListedExactly (env : FsEnv) (listing : FsListing) (os : Os) (path : Path) (entries : List AgentFsListEntry) :
    Loc × Obj → Prop
  | (dir, .inr _) =>
    (entries.map AgentFsListEntry.path).Nodup ∧ ∃ items, Enumerates (fun k => os.view (dir ++ k)) listing.Wants items ∧
      entries = items.map fun item => listedAt env listing os (item.1.foldl Path.push path) (dir ++ item.1) item.2
  | (l, .inl leaf) => entries = [listedAt env listing os path l (.inl leaf)]

/-- The entries of a directory, from its tree. -/
def listingOf (env : FsEnv) (listing : FsListing) (os : Os) (path : Path) (dir : Loc) (t : Tree) : List AgentFsListEntry :=
  ((t.preorder.map fun p => (p.1, p.2.label)).filter fun item => listing.Wants item.1).map fun item =>
    listedAt env listing os (item.1.foldl Path.push path) (dir ++ item.1) item.2

/-- There is one exact listing of a directory. -/
theorem eq_listingOf {os : Os} {path : Path} {dir : Loc} {mode : ℕ} {t : Tree} {listing : FsListing}
    {entries : List AgentFsListEntry} (ht : os.tree.sub dir = some t)
    (h : ListedExactly env listing os path entries (dir, .inr mode)) : entries = listingOf env listing os path dir t := by
  obtain ⟨-, items, hitems, rfl⟩ := h
  have hview : (fun k => os.view (dir ++ k)) = t.view := funext fun k => DirTree.view_of_sub ht k
  rw [hview] at hitems
  have hall := (DirTree.enumerates_preorder (os.ordered.sub ht)).filter fun k => listing.Wants k
  rw [listingOf, hitems.unique (hall.congr fun k x _ => by rw [true_and, decide_eq_true_eq])]

theorem isHidden_of_isUtf8 {name : Name} (h : isUtf8 name.1 = true) :
    isHidden name = true ↔ name.1.head? = some 46 := by
  rw [isHidden, h, Bool.true_and, decide_eq_true_eq]

/-- Among names that are texts, what is kept is what is wanted. -/
theorem FsListing.wants_iff (listing : FsListing) {k : Loc} (hk : ∀ name ∈ k, isUtf8 name.1 = true) :
    listing.Wants k ↔ listing.Keeps 0 k := by
  have hshows : (listing.includeHidden = false → ∀ name ∈ k, name.1.head? ≠ some 46) ↔ ∀ name ∈ k, listing.Shows name := by
    cases hhidden : listing.includeHidden with
    | true => simp [FsListing.Shows, hhidden]
    | false =>
      simp only [FsListing.Shows, hhidden, forall_const, Bool.false_eq_true, false_or]
      refine forall₂_congr fun name hname => ?_
      rw [ne_eq, ← isHidden_of_isUtf8 (hk name hname), Bool.not_eq_true]
  rw [FsListing.Wants, FsListing.Keeps, hshows, Nat.zero_add]

section

variable {os : Os} {path : Path} {dir : Loc} (htext : path.IsText)
  (hnames : ∀ k x, os.view (dir ++ k) = some x → ∀ name ∈ k, isUtf8 name.1 = true)

include htext hnames

/-- What is collected below a directory is what is listed of it. -/
theorem listedExactly_of_collected {listing : FsListing} {entries : List AgentFsListEntry} {mode : ℕ}
    (h : Collected env listing os path dir (listing.Keeps 0) entries) :
    ListedExactly env listing os path entries (dir, .inr mode) := by
  obtain ⟨items, hitems, rfl⟩ := h
  have hwants : Enumerates (fun k => os.view (dir ++ k)) listing.Wants items :=
    hitems.congr fun k x hk => listing.wants_iff (hnames k x hk)
  have hentry : ∀ item ∈ items, listed env listing os path dir item =
      listedAt env listing os (item.1.foldl Path.push path) (dir ++ item.1) item.2 := by
    rintro ⟨k, x⟩ hitem
    have hview := ((hitems.mem k x).mp hitem).2
    rw [listed, utf8Lossy_of_isUtf8 (Path.isUtf8_display (htext.foldl_push (hnames k x hview)))]
    rfl
  refine ⟨?_, items, hwants, List.map_congr_left hentry⟩
  rw [List.map_map, List.Nodup, List.pairwise_map]
  refine (List.pairwise_map.mp hwants.nodup).imp_of_mem fun {a b} ha hb hne heq => hne ?_
  refine Path.display_foldl_push_inj path ?_
  have hpath : (listed env listing os path dir a).path = (listed env listing os path dir b).path := heq
  rwa [hentry a ha, hentry b hb] at hpath

theorem wp_blockingFsList {D : Prop} (listing : FsListing) {obj : Obj} (hpath : os.lookup false path = .ok (dir, obj))
    (hD : D → Walkable env.reads os dir env.depth) {t : Os} (hsame : SameTree os t) :
    wp Os.step (fun entries t' => ListedExactly env listing os path entries (dir, obj) ∧ SameTree os t') (fun _ _ => ¬ D)
      (blockingFsList env listing path) t := by
  show wp Os.step _ _ (.call (.lstat path) _) t
  rw [wp_call, hsame.step_lstat, hpath]
  rcases obj with leaf | mode
  · have hno : (os.metadata dir (.inl leaf)).isDir = false := by cases leaf <;> rfl
    show wp Os.step _ _ (if (os.metadata dir (.inl leaf)).isDir then _ else _) t
    rw [hno, if_neg Bool.false_ne_true, wp_bind]
    have hfile : D → ∀ mode content, (.inl leaf : Obj) = .inl (.file mode content) →
        os.may mode ownerRead = true ∧ content.length < env.reads := by
      intro hd mode content heq
      have hv : os.view (dir ++ []) = some (.inl (.file mode content)) := by
        rw [List.append_nil, ← heq]
        exact (Os.lookup_eq_ok hpath).2.1
      exact ⟨(hD hd).readable.file [] mode content hv, (hD hd).short [] mode content hv⟩
    refine wp_mono (fun entry t' ⟨hentry, hsame'⟩ => ⟨?_, hsame'⟩) (wp_buildFsEntry hpath hfile listing hsame)
    show [entry] = [listedAt env listing os path dir (.inl leaf)]
    rw [hentry, listed, List.foldl_nil, List.append_nil, utf8Lossy_of_isUtf8 (Path.isUtf8_display htext)]
    rfl
  · have hfollow := Os.lookup_of_dir hpath
    show wp Os.step _ _ (collectFsEntries env listing env.depth path 0) t
    refine wp_mono (fun entries t' ⟨hcollected, hsame'⟩ => ⟨?_, hsame'⟩)
      (wp_collectFsEntries hfollow (by simpa using listing.reaches_one) hD t hsame)
    exact listedExactly_of_collected htext hnames hcollected

end

/-- **A listing is exact.** What `blocking_fs_list` returns is the listing of the
path, and it returns where it may read everything from there on. The path of an entry is
the text that was asked for with the names below it, its size what a look at it says. -/
theorem fs_list_exact (env : FsEnv) (listing : FsListing) {os : Os} {path : Path} {loc : Loc} {obj : Obj}
    (htext : path.IsText) (hpath : os.lookup false path = .ok (loc, obj))
    (hnames : ∀ k x, os.view (loc ++ k) = some x → ∀ name ∈ k, isUtf8 name.1 = true) :
    (∀ entries os', run Os.step (blockingFsList env listing path) os = (.ok entries, os') →
      ListedExactly env listing os path entries (loc, obj)) ∧
    (Walkable env.reads os loc env.depth →
      ∃ entries os', run Os.step (blockingFsList env listing path) os = (.ok entries, os')) := by
  have hwp := wp_iff_run.mp (wp_blockingFsList htext hnames listing hpath
    (id : Walkable env.reads os loc env.depth → _) (SameTree.refl os))
  refine ⟨fun entries os' hrun => (hwp.1 entries os' hrun).1, fun hwalk => ?_⟩
  rcases hrun : run Os.step (blockingFsList env listing path) os with ⟨result, os'⟩
  cases result with
  | ok entries => exact ⟨entries, os', rfl⟩
  | error err => exact absurd hwalk (hwp.2 err os' hrun)

/-! A directory `/b` with a file, a hidden directory `/.h` with a file, and a link `/l` to `/`. -/

theorem isName_l : IsName (str "l") := by decide

/-- A hidden name. -/
def hName : Name := ⟨str ".h", by decide⟩

/-- The name of the link. -/
def lName : Name := ⟨str "l", isName_l⟩

/-- The tree. -/
def hiddenTree : Os :=
  ((((Os.fresh.withDir [hName] 0o755).withDir [bName] 0o755).withLeaf [lName] (.symlink (.ofStr (str "/")))).withLeaf
    [hName, aName] (.file 0o644 (str "x"))).withLeaf [bName, aName] (.file 0o644 (str "yes"))

/-- Enough reads and levels for it; the digest of a file is its content. -/
def walkEnv : FsEnv where
  sha256 := id
  base64 := ⟨id, .ok⟩
  nonce := 0
  reads := 4
  depth := 3
  mtimeUnixMs _ := none

/-- Everything that is not hidden, with digests. -/
def allVisible : FsListing := ⟨true, none, false, some .sha256⟩

theorem fs_list_exact_hidden_tree :
    ∃ entries os', run Os.step (blockingFsList walkEnv allVisible (.ofStr (str "/"))) hiddenTree = (.ok entries, os') ∧
      ListedExactly walkEnv allVisible hiddenTree (.ofStr (str "/")) entries ([], .inr 0o755) := by
  obtain ⟨hexact, hreturns⟩ := @fs_list_exact walkEnv allVisible hiddenTree (.ofStr (str "/")) [] (.inr 0o755)
    (by decide) (by decide +kernel)
    fun k _ hk => @Os.forall_view hiddenTree (fun k _ => ∀ name ∈ k, isUtf8 name.1 = true) (by decide +kernel) k _ hk
  have hwalk : Walkable walkEnv.reads hiddenTree [] walkEnv.depth :=
    { readable := Os.readable_of_privileged rfl []
      shallow := shallow_of_preorder (by decide +kernel)
      short := fun k mode content hk =>
        @Os.forall_view hiddenTree (fun _ obj => ∀ size ∈ obj.fileSize, size < 4) (by decide +kernel) k _ hk _ rfl }
  obtain ⟨entries, os', hrun⟩ := hreturns hwalk
  exact ⟨entries, os', hrun, hexact entries os' hrun⟩

example : (run Os.step (blockingFsList walkEnv allVisible (.ofStr (str "/"))) hiddenTree).1.toOption.map
    (List.map AgentFsListEntry.path) = some [str "/b", str "/b/a", str "/l"] := by decide +kernel

/-- The paths begin with the path as it was asked for. -/
example : (run Os.step (blockingFsList walkEnv allVisible (.ofStr (str "/b/."))) hiddenTree).1.toOption.map
    (List.map AgentFsListEntry.path) = some [str "/b/./a"] := by decide +kernel

end Daemon

end Rsdb
