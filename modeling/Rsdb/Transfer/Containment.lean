/-
# Where a received batch can write

Every call a receiver makes, whatever the operating system answers and whatever
comes over the connection: a directory it creates lies at or below the
destination or is a parent of it, and what it opens for writing or chmods lies
at or below the destination (`Contained`).

An entry's path is its root's `source_name` under the destination, and then the
relative path. The relative path must consist of names; the source name is not
checked. `push_and_pull_contained_iff` says exactly for which manifests the
batch stays at the destination: for those whose source names keep it there.
-/
import Rsdb.Transfer.Receive

namespace Rsdb

open Prog (All Returns all_bind returns_bind all_call all_ask_bind returns_ask_bind)

/-! ### At or below the destination -/

/-- `q` may be created: it lies at or below the destination, or is a parent of it. -/
def Creatable (destination q : Path) : Prop :=
  q.Within destination ∨ destination.Within q ∨ (q.abs = destination.abs ∧ q.comps <+: destination.comps)

instance (destination q : Path) : Decidable (Creatable destination q) := by
  unfold Creatable; infer_instance

/-- What a call creates, opens for writing, chmods or removes is where it should be. -/
def Contained (destination : Path) : Call → Prop
  | .mkdir p => Creatable destination p
  | .openWrite p _ | .createNew p _ | .chmod p _ | .unlink p | .rmdir p => p.Within destination
  | .rename p q => p.Within destination ∧ q.Within destination
  | .unlinkAt _ _ | .rmdirAt _ _ => False
  | .stat _ | .lstat _ | .openRead _ | .read _ _ | .write _ _ | .readDir _ | .openDir _ _ | .listDir _ => True

/-- The path `p` of an entry can be received at the destination. -/
def EntryStays (destination : Path) (entry : TransferEntry) (p : Path) : Prop :=
  (∀ q ∈ p.ancestors, Creatable destination q) ∧
    (entry.kind = .file ∨ entry.mode ≠ 0 → p.Within destination)

instance (destination : Path) (entry : TransferEntry) (p : Path) :
    Decidable (EntryStays destination entry p) := by unfold EntryStays; infer_instance

theorem lexical_append_names {p destination : Path} (habs : p.abs = destination.abs) (names : List Name)
    (hcomps : p.comps = destination.comps ++ names.map .normal) :
    p.lexical = { destination.lexical with names := destination.lexical.names ++ names } := by
  have hstep : ∀ (names : List Name) (l : Path.Lexical),
      (names.map Comp.normal).foldl Path.Lexical.step l = { l with names := l.names ++ names } := by
    intro names
    induction names with
    | nil => simp
    | cons n names ih =>
      intro l
      rw [List.map_cons, List.foldl_cons, ih]
      simp [Path.Lexical.step]
  simp only [Path.lexical, habs, hcomps, List.foldl_append, hstep]

/-- Names after the components of the destination stay below it. -/
theorem within_of_names {destination p : Path} (habs : p.abs = destination.abs) (names : List Name)
    (hcomps : p.comps = destination.comps ++ names.map .normal) : p.Within destination := by
  rw [Path.Within, lexical_append_names habs names hcomps]
  exact ⟨rfl, Or.inl ⟨rfl, List.prefix_append _ _⟩⟩

theorem entryStays_of_names {destination p : Path} (entry : TransferEntry) (habs : p.abs = destination.abs)
    (names : List Name) (hcomps : p.comps = destination.comps ++ names.map .normal) :
    EntryStays destination entry p := by
  refine ⟨fun q hq => ?_, fun _ => within_of_names habs names hcomps⟩
  obtain ⟨hqabs, hpre⟩ := Path.mem_ancestors hq
  rw [hcomps] at hpre
  rcases List.prefix_or_prefix_of_prefix hpre (List.prefix_append _ _) with h | ⟨t, ht⟩
  · exact Or.inr (Or.inr ⟨hqabs.trans habs, h⟩)
  · rw [← ht, List.prefix_append_right_inj] at hpre
    obtain ⟨s, hs⟩ := hpre
    obtain ⟨ns, -, -, hns, -⟩ := List.map_eq_append_iff.mp hs.symm
    exact Or.inl (within_of_names (hqabs.trans habs) ns (hns ▸ ht.symm))

/-! ### The calls of a receiver -/

section Calls

variable {d : Path}

theorem all_ioContext {α : Type} (context : Str) (result : Except IoError α) :
    All (Contained d) (Act.ioContext context result) := by cases result <;> trivial

theorem returns_ioContext {α : Type} {context : Str} {result : Except IoError α} {a : α} :
    Returns (Act.ioContext context result) a ↔ result = .ok a := by
  cases result <;> simp [Act.ioContext]

theorem all_ofExcept {α : Type} (result : Except AnyhowError α) :
    All (Contained d) (.ofExcept result : Act α) := by cases result <;> trivial

theorem returns_ofExcept {α : Type} {result : Except AnyhowError α} {a : α} :
    Returns (.ofExcept result : Act α) a ↔ result = .ok a := by
  cases result <;> simp [Prog.ofExcept]

theorem all_okIfDir (p : Path) (err : IoError) : All (Contained d) (Act.okIfDir p err) := by
  simp only [Act.okIfDir, Act.isDir, Act.stat, Prog.ask_bind, Prog.call_bind, all_call]
  refine ⟨trivial, fun r => ?_⟩
  cases r with
  | error e => trivial
  | ok m => cases h : Metadata.isDir m <;> simp [h]

/-- `create_dir_all` may create the path and every parent of it. -/
theorem all_createDirAll (d : Path) : ∀ (n : ℕ) (p : Path), p.comps.length = n →
    (All (Contained d) (Act.createDirAll p) ↔ ∀ q ∈ p.ancestors, Creatable d q)
  | n, p, hn => by
    cases hp : p.parent with
    | none =>
      rw [Act.createDirAll, Path.ancestors_of_root hp]
      cases p.isEmpty with
      | true => simp [Act.createDirs]
      | false =>
        simp only [Bool.false_eq_true, ↓reduceIte, List.mem_singleton, forall_eq, Act.createDirs, Act.mkdir,
          Prog.ask_bind, all_call, hp]
        refine ⟨fun h => h.1, fun h => ⟨h, fun r => ?_⟩⟩
        cases r with
        | ok u => trivial
        | error e =>
          by_cases hk : e.kind = .notFound
          · simp [hk]
          · simpa [hk] using all_okIfDir p e
    | some q =>
      obtain ⟨hne, hq⟩ := Path.parent_comps hp
      have hlt : q.comps.length < n := by
        rw [hq, List.length_dropLast, ← hn]
        have := List.length_pos_iff.mpr hne
        omega
      have ih := all_createDirAll d q.comps.length q rfl
      rw [Act.createDirAll] at ih
      rw [Act.createDirAll, Path.ancestors_of_parent hp, List.forall_mem_cons, ← ih]
      simp only [Act.createDirs, Act.mkdir, Prog.ask_bind, all_call, hp]
      refine ⟨fun h => ⟨h.1, ?_⟩, fun h => ⟨h.1, fun r => ?_⟩⟩
      · have hmiss := h.2 (.error ⟨.notFound, []⟩)
        simp only [ne_eq, not_true_eq_false, ↓reduceIte, reduceCtorEq] at hmiss
        exact (all_bind.mp hmiss).1
      · cases r with
        | ok u => trivial
        | error e =>
          by_cases hk : e.kind = .notFound
          · simp only [hk, ne_eq, not_true_eq_false, ↓reduceIte, reduceCtorEq]
            refine all_bind.mpr ⟨h.2, fun r _ => ?_⟩
            cases r with
            | error e => trivial
            | ok u =>
              refine all_call.mpr ⟨h.1, fun r => ?_⟩
              cases r with
              | ok u => trivial
              | error err => exact all_okIfDir p err
          · simpa [hk] using all_okIfDir p e
termination_by n => n

/-- It can succeed. -/
theorem returns_createDirAll (p : Path) : Returns (Act.createDirAll p) (.ok ()) := by
  rw [Act.createDirAll]
  cases p.ancestors with
  | nil => rfl
  | cons q qs => exact ⟨.ok (), rfl⟩

variable (r : Receiver)

theorem all_createDirectory (p : Path) :
    All (Contained d) (r.createDirectory p) ↔ ∀ q ∈ p.ancestors, Creatable d q := by
  rw [Receiver.createDirectory, all_bind, all_createDirAll d _ p rfl]
  exact ⟨fun h => h.1, fun h => ⟨h, fun a _ => all_ioContext _ a⟩⟩

theorem returns_createDirectory (p : Path) : Returns (r.createDirectory p) () :=
  returns_bind.mpr ⟨.ok (), returns_createDirAll p, returns_ioContext.mpr rfl⟩

/-- The parents of a file, all but the file itself. -/
theorem all_createParents (p : Path) :
    All (Contained d) (r.createParents p) ↔ ∀ q ∈ p.ancestors.tail, Creatable d q := by
  rw [Receiver.createParents]
  cases hp : p.parent with
  | none =>
    rw [Path.ancestors_of_root hp]
    cases p.isEmpty <;> simp
  | some q =>
    rw [Path.ancestors_of_parent hp, List.tail_cons]
    cases he : q.isEmpty with
    | false => simpa [he] using all_createDirectory r q
    | true => simp [Path.ancestors_of_root (Path.parent_of_isEmpty he), he]

theorem returns_createParents (p : Path) : Returns (r.createParents p) () := by
  rw [Receiver.createParents]
  cases p.parent with
  | none => rfl
  | some q =>
    cases he : q.isEmpty with
    | true => simp [he]
    | false => simpa [he] using returns_createDirectory r q

theorem all_setPermissions (p : Path) (entryMode mode : ℕ) :
    All (Contained d) (Receiver.setPermissions p entryMode mode) ↔ (entryMode ≠ 0 → p.Within d) := by
  unfold Receiver.setPermissions
  split
  · simp [*]
  · simp only [Act.chmod, Prog.ask_bind, all_call]
    exact ⟨fun h _ => h.1, fun h => ⟨h ‹_›, fun a => all_ioContext _ a⟩⟩

theorem returns_setPermissions (p : Path) (entryMode mode : ℕ) :
    Returns (Receiver.setPermissions p entryMode mode) () := by
  unfold Receiver.setPermissions
  split
  · rfl
  · exact ⟨.ok (), rfl⟩

theorem all_receiveFile (path : Path) (fd : ℕ) : ∀ (fuel remaining bytes : ℕ) (input : Bytes),
    All (Contained d) (r.receiveFile path fd fuel remaining bytes input)
  | _, 0, _, _ => by simp [Receiver.receiveFile]
  | 0, _ + 1, _, _ => trivial
  | fuel + 1, remaining + 1, bytes, input => by
    rw [Receiver.receiveFile]
    cases r.readFileStreamChunk input with
    | error err => trivial
    | ok chunk =>
      obtain ⟨header, payload, input⟩ := chunk
      simp only
      split
      · trivial
      · split
        · trivial
        · split
          · exact all_receiveFile path fd fuel (remaining + 1) bytes input
          · simp only [Act.write, Prog.ask_bind, all_call]
            refine ⟨trivial, fun a => all_bind.mpr ⟨?_, fun _ _ => all_receiveFile path fd fuel _ _ input⟩⟩
            unfold Receiver.ioWrite
            split
            · cases a <;> trivial
            · exact all_ioContext _ a

theorem all_receiveDirectory (p : Path) (entry : TransferEntry) :
    All (Contained d) (r.receiveDirectory p entry) ↔
      (∀ q ∈ p.ancestors, Creatable d q) ∧ (entry.mode ≠ 0 → p.Within d) := by
  rw [Receiver.receiveDirectory, all_bind, all_createDirectory, all_setPermissions]
  exact ⟨fun h => ⟨h.1, h.2 () (returns_createDirectory r p)⟩, fun h => ⟨h.1, fun _ _ => h.2⟩⟩

theorem all_receiveRegular (p : Path) (entry : TransferEntry) (bytes : ℕ) (input : Bytes) :
    All (Contained d) (r.receiveRegular p entry bytes input) ↔
      (∀ q ∈ p.ancestors.tail, Creatable d q) ∧ p.Within d := by
  rw [Receiver.receiveRegular, all_bind, all_createParents]
  refine and_congr_right fun _ => ⟨fun h => (h () (returns_createParents r p)).1, fun h _ _ => ?_⟩
  refine all_ask_bind.mpr ⟨h, fun a => all_bind.mpr ⟨all_ioContext _ a, fun fd _ => ?_⟩⟩
  refine all_bind.mpr ⟨all_receiveFile r p fd _ _ _ _, fun x _ => ?_⟩
  exact all_bind.mpr ⟨(all_setPermissions p _ _).mpr fun _ => h, fun _ _ => trivial⟩

theorem mem_ancestors_tail {p q : Path} (h : q ∈ p.ancestors) : q = p ∨ q ∈ p.ancestors.tail := by
  cases hp : p.parent with
  | none =>
    rw [Path.ancestors_of_root hp] at h
    split at h
    · cases h
    · exact Or.inl (List.mem_singleton.mp h)
  | some q' =>
    rw [Path.ancestors_of_parent hp] at h ⊢
    simpa using h

/-- One entry stays exactly when its path does. -/
theorem all_receiveEntry {rootPaths : List Path} {entry : TransferEntry} (bytes : ℕ) (input : Bytes) :
    All (Contained d) (r.receiveEntry rootPaths entry bytes input) ↔
      ∀ p, resolveTransferEntryPath rootPaths entry = .ok p → EntryStays d entry p := by
  rw [Receiver.receiveEntry, all_bind]
  refine ⟨fun h p hp => ?_, fun h => ⟨all_ofExcept _, fun p hp => ?_⟩⟩
  · have hp := h.2 p (returns_ofExcept.mpr hp)
    cases hk : entry.kind with
    | directory =>
      simp only [hk] at hp
      obtain ⟨hparents, hmode⟩ := (all_receiveDirectory r p entry).mp (all_bind.mp hp).1
      exact ⟨hparents, fun hor => hmode (hor.resolve_left (by simp [hk]))⟩
    | file =>
      simp only [hk] at hp
      obtain ⟨hparents, hself⟩ := (all_receiveRegular r p entry bytes input).mp hp
      refine ⟨fun q hq => ?_, fun _ => hself⟩
      rcases mem_ancestors_tail hq with rfl | hq
      · exact Or.inl hself
      · exact hparents q hq
  · obtain ⟨hparents, hself⟩ := h p (returns_ofExcept.mp hp)
    cases hk : entry.kind with
    | directory =>
      exact all_bind.mpr ⟨(all_receiveDirectory r p entry).mpr ⟨hparents, fun hm => hself (Or.inr hm)⟩,
        fun _ _ => trivial⟩
    | file =>
      exact (all_receiveRegular r p entry bytes input).mpr
        ⟨fun q hq => hparents q (List.mem_of_mem_tail hq), hself (Or.inl hk)⟩

/-! ### Every entry can be reached -/

/-- A connection on which a file arrives byte by byte. -/
def byteByByte (requestId : UInt32) (n : ℕ) : Bytes :=
  framesBytes (List.replicate n (chunkFrame requestId [0]))

theorem le_length_byteByByte (requestId : UInt32) : ∀ n, n ≤ (byteByByte requestId n).length
  | 0 => Nat.zero_le _
  | n + 1 => by
    have ih := le_length_byteByByte requestId n
    rw [byteByByte, List.replicate_succ, framesBytes_cons, List.length_append, Frame.bytes_length]
    rw [byteByByte] at ih
    have : 0 < headerLen := by decide
    omega

theorem returns_receiveFile (path : Path) (fd : ℕ) (rest : Bytes) (n : ℕ) : ∀ (fuel bytes : ℕ), n ≤ fuel →
    Returns (r.receiveFile path fd fuel n bytes (byteByByte r.requestId n ++ rest)) (bytes + n, rest) := by
  induction n with
  | zero =>
    intro fuel bytes _
    simp [Receiver.receiveFile, byteByByte]
  | succ n ih =>
    intro fuel bytes hle
    obtain ⟨fuel, rfl⟩ : ∃ m, fuel = m + 1 := ⟨fuel - 1, by omega⟩
    have hin : byteByByte r.requestId (n + 1) ++ rest =
        (chunkFrame r.requestId [0]).bytes ++ (byteByByte r.requestId n ++ rest) := by
      rw [byteByByte, List.replicate_succ, framesBytes_cons, List.append_assoc]
      rfl
    have hio : Returns (r.ioWrite path (.ok ())) () := by
      unfold Receiver.ioWrite
      split <;> rfl
    have hcount : bytes + (n + 1) = bytes + 1 + n := by omega
    rw [hin, Receiver.receiveFile, r.readFileStreamChunk_chunkFrame [0] _ (by decide), hcount]
    refine returns_ask_bind.mpr ⟨.ok (), returns_bind.mpr ⟨(), hio, ?_⟩⟩
    exact ih fuel (bytes + 1) (by omega)

/-- The bytes of an entry that come over the connection. -/
def entryBytes (entry : TransferEntry) : ℕ :=
  match entry.kind with
  | .directory => 0
  | .file => entry.size

/-- Some connection brings a receiver past an entry, whatever is left of it. -/
theorem returns_receiveEntry {rootPaths : List Path} {entry : TransferEntry} {p : Path}
    (hp : resolveTransferEntryPath rootPaths entry = .ok p) (bytes : ℕ) (rest : Bytes) :
    ∃ input, Returns (r.receiveEntry rootPaths entry bytes input) (bytes + entryBytes entry, rest) := by
  cases hk : entry.kind with
  | directory =>
    refine ⟨rest, returns_bind.mpr ⟨p, returns_ofExcept.mpr hp, ?_⟩⟩
    simp only [hk, entryBytes]
    refine returns_bind.mpr ⟨(), returns_bind.mpr ⟨(), returns_createDirectory r p, ?_⟩, rfl⟩
    exact returns_setPermissions p _ _
  | file =>
    refine ⟨byteByByte r.requestId entry.size ++ rest, returns_bind.mpr ⟨p, returns_ofExcept.mpr hp, ?_⟩⟩
    simp only [hk, entryBytes]
    refine returns_bind.mpr ⟨(), returns_createParents r p, ?_⟩
    refine returns_ask_bind.mpr ⟨.ok (0 : ℕ), returns_bind.mpr ⟨(0 : ℕ), rfl, ?_⟩⟩
    have hlen : entry.size ≤ (byteByByte r.requestId entry.size ++ rest).length :=
      (le_length_byteByByte r.requestId entry.size).trans (by simp)
    exact returns_bind.mpr ⟨_, returns_receiveFile r p 0 rest _ _ bytes hlen,
      returns_bind.mpr ⟨(), returns_setPermissions p _ _, rfl⟩⟩

/-- All entries stay, on every connection, exactly when those up to the first
one that cannot be addressed do. -/
theorem all_receiveEntries (rootPaths : List Path) : ∀ (entries : List TransferEntry) (n bytes : ℕ),
    (∀ input, All (Contained d) (r.receiveEntries rootPaths entries n bytes input)) ↔
      ∀ entry ∈ entries.takeWhile fun e => (resolveTransferEntryPath rootPaths e).isOk,
        ∀ p, resolveTransferEntryPath rootPaths entry = .ok p → EntryStays d entry p
  | [], _, _ => by simp [Receiver.receiveEntries]
  | entry :: rest, n, bytes => by
    cases hp : resolveTransferEntryPath rootPaths entry with
    | error err =>
      simp only [List.takeWhile_cons, hp, Except.isOk, Except.toBool, Bool.false_eq_true, ↓reduceIte,
        List.not_mem_nil, false_imp_iff, implies_true, iff_true]
      intro input
      rw [Receiver.receiveEntries, Receiver.receiveEntry, hp]
      trivial
    | ok p =>
      have hcons : (entry :: rest).takeWhile (fun e => (resolveTransferEntryPath rootPaths e).isOk) =
          entry :: rest.takeWhile fun e => (resolveTransferEntryPath rootPaths e).isOk := by
        rw [List.takeWhile_cons, hp]
        rfl
      have ih := all_receiveEntries rootPaths rest (n + 1)
      rw [hcons, List.forall_mem_cons, ← ih (bytes + entryBytes entry)]
      simp only [Receiver.receiveEntries, all_bind, all_receiveEntry]
      constructor
      · intro h
        refine ⟨(h []).1, fun input => ?_⟩
        obtain ⟨input', hr⟩ := returns_receiveEntry r hp bytes input
        exact (h input').2 _ hr
      · rintro ⟨he, hrest⟩ input
        refine ⟨he, fun a _ => ?_⟩
        exact (ih a.1).mpr ((ih _).mp hrest) a.2

theorem all_receiveBatch (rootPaths : List Path) (entries : List TransferEntry) :
    (∀ input, All (Contained d) (r.receiveBatch rootPaths entries input)) ↔
      ∀ entry ∈ entries.takeWhile fun e => (resolveTransferEntryPath rootPaths e).isOk,
        ∀ p, resolveTransferEntryPath rootPaths entry = .ok p → EntryStays d entry p := by
  rw [← all_receiveEntries r rootPaths entries 0 0]
  refine forall_congr' fun input => ?_
  rw [Receiver.receiveBatch, all_bind]
  exact ⟨fun h => h.1, fun h => ⟨h, fun a _ => all_bind.mpr ⟨all_ofExcept _, fun _ _ => trivial⟩⟩⟩

end Calls

/-! ### What it says of a manifest -/

/-- The entry names a root and has only names in its relative path. -/
def Addressed (roots : ℕ) (entry : TransferEntry) : Bool :=
  entry.rootIndex < roots && (relativeNames entry.relativePath).isSome

/-- The source names keep the entries at the destination, up to the first entry
that cannot be addressed, where the batch ends. -/
def NamesStay (destination : Path) (roots : List TransferRoot) (entries : List TransferEntry) : Prop :=
  ∀ entry ∈ entries.takeWhile (Addressed roots.length), ∀ root names,
    roots[entry.rootIndex]? = some root → relativeNames entry.relativePath = some names →
      EntryStays destination entry (names.foldl Path.push (root.under destination))

/-- The manifest is refused for its roots alone. -/
def Refused (roots : List TransferRoot) : Prop := roots = [] ∨ (duplicateRoot [] roots).isSome = true

theorem isOk_resolveTransferEntryPath (rootPaths : List Path) (entry : TransferEntry) :
    (resolveTransferEntryPath rootPaths entry).isOk = Addressed rootPaths.length entry := by
  rw [Bool.eq_iff_iff]
  have hok : (resolveTransferEntryPath rootPaths entry).isOk = true ↔
      ∃ p, resolveTransferEntryPath rootPaths entry = .ok p := by
    cases resolveTransferEntryPath rootPaths entry <;> simp [Except.isOk, Except.toBool]
  rw [hok]
  simp only [resolveTransferEntryPath_eq_ok, Addressed, Bool.and_eq_true, decide_eq_true_eq,
    Option.isSome_iff_exists]
  constructor
  · rintro ⟨p, root, names, hroot, hnames, -⟩
    exact ⟨(List.getElem?_eq_some_iff.mp hroot).1, names, hnames⟩
  · rintro ⟨hlt, names, hnames⟩
    exact ⟨_, _, names, List.getElem?_eq_getElem hlt, hnames, rfl⟩

/-- Where the destination itself is the root, everything stays. -/
theorem entryStays_at_destination (destination : Path) (entry : TransferEntry) (names : List Name) :
    EntryStays destination entry (names.foldl Path.push destination) :=
  entryStays_of_names entry (Path.comps_push names destination).1 names (Path.comps_push names destination).2

theorem returns_resolveRoots {statContext notDirectory : Str} {destination : Path} {trailing : Bool}
    {roots : List TransferRoot} {rootPaths : List Path} :
    Returns (resolveRoots statContext notDirectory destination trailing roots) rootPaths ↔
      ∃ isDir, rootPathsAt notDirectory destination trailing isDir roots = .ok rootPaths := by
  rw [resolveRoots, Act.stat, returns_ask_bind]
  constructor
  · rintro ⟨answer, h⟩
    cases answer with
    | ok m => exact ⟨_, returns_ofExcept.mp h⟩
    | error err =>
      by_cases hk : err.kind = .notFound
      · simp only [hk, ↓reduceIte] at h
        exact ⟨none, returns_ofExcept.mp h⟩
      · simp [hk] at h
  · rintro ⟨isDir, h⟩
    cases isDir with
    | none => exact ⟨.error ⟨.notFound, []⟩, returns_ofExcept.mpr h⟩
    | some b =>
      cases b with
      | true => exact ⟨.ok ⟨.directory, 0, 0⟩, returns_ofExcept.mpr h⟩
      | false => exact ⟨.ok ⟨.file, 0, 0⟩, returns_ofExcept.mpr h⟩

theorem rootPathsAt_true (notDirectory : Str) (destination : Path) (trailing : Bool) (roots : List TransferRoot) :
    rootPathsAt notDirectory destination trailing (some true) roots =
      .ok (roots.map (TransferRoot.under destination)) := by
  unfold rootPathsAt
  split <;> simp

theorem rootPathsAt_eq_ok {notDirectory : Str} {destination : Path} {trailing : Bool} {isDir : Option Bool}
    {roots : List TransferRoot} {rootPaths : List Path}
    (h : rootPathsAt notDirectory destination trailing isDir roots = .ok rootPaths) :
    rootPaths = roots.map (TransferRoot.under destination) ∨ ∃ root, roots = [root] ∧ rootPaths = [destination] := by
  unfold rootPathsAt at h
  split at h
  · rename_i root
    split at h
    · left; simpa using h.symm
    · right; exact ⟨root, rfl, by simpa using h.symm⟩
  · split at h
    · cases h
    · left; simpa using h.symm

/-- After the checks both receivers do the same. -/
theorem all_receive (r : Receiver) (statContext notDirectory : Str) (destination : Path) (trailing : Bool)
    (roots : List TransferRoot) (entries : List TransferEntry) :
    (∀ input, All (Contained destination) (do
      let rootPaths ← resolveRoots statContext notDirectory destination trailing roots
      r.receiveBatch rootPaths entries input)) ↔ NamesStay destination roots entries := by
  have hstat : All (Contained destination) (resolveRoots statContext notDirectory destination trailing roots) := by
    refine all_ask_bind.mpr ⟨trivial, fun a => ?_⟩
    cases a with
    | ok m => exact all_ofExcept _
    | error err =>
      simp only
      split
      · exact all_ofExcept _
      · trivial
  have hbatch : (∀ input, All (Contained destination) (do
      let rootPaths ← resolveRoots statContext notDirectory destination trailing roots
      r.receiveBatch rootPaths entries input)) ↔
      ∀ rootPaths, (∃ isDir, rootPathsAt notDirectory destination trailing isDir roots = .ok rootPaths) →
        ∀ entry ∈ entries.takeWhile (Addressed rootPaths.length),
          ∀ p, resolveTransferEntryPath rootPaths entry = .ok p → EntryStays destination entry p := by
    have haddressed : ∀ rootPaths : List Path,
        Addressed rootPaths.length = fun e => (resolveTransferEntryPath rootPaths e).isOk :=
      fun rootPaths => funext fun e => (isOk_resolveTransferEntryPath rootPaths e).symm
    simp only [all_bind, returns_resolveRoots, hstat, true_and, haddressed]
    exact ⟨fun h rootPaths hr => (all_receiveBatch r rootPaths entries).mp fun input => h input rootPaths hr,
      fun h input rootPaths hr => (all_receiveBatch r rootPaths entries).mpr (h rootPaths hr) input⟩
  rw [hbatch]
  constructor
  · intro h entry hentry root names hroot hnames
    refine h _ ⟨some true, rootPathsAt_true _ _ _ roots⟩ entry (by simpa using hentry) _
      (resolveTransferEntryPath_eq_ok.mpr ⟨root.under destination, names, ?_, hnames, rfl⟩)
    rw [List.getElem?_map, hroot]
    rfl
  · rintro h rootPaths ⟨isDir, hr⟩ entry hentry p hp
    obtain ⟨rootPath, names, hroot, hnames, rfl⟩ := resolveTransferEntryPath_eq_ok.mp hp
    rcases rootPathsAt_eq_ok hr with rfl | ⟨root, rfl, rfl⟩
    · rw [List.length_map] at hentry
      rw [List.getElem?_map, Option.map_eq_some_iff] at hroot
      obtain ⟨root, hroot, rfl⟩ := hroot
      exact h entry hentry root names hroot hnames
    · obtain ⟨hlt, heq⟩ := List.getElem?_eq_some_iff.mp hroot
      have hzero : entry.rootIndex = 0 := by simpa using hlt
      simp only [hzero, List.getElem_cons_zero] at heq
      exact heq ▸ entryStays_at_destination destination entry names

theorem all_handlePushBatch (requestId : UInt32) (destination : Str) (roots : List TransferRoot)
    (entries : List TransferEntry) :
    (∀ input, All (Contained (Path.ofStr destination))
        (Daemon.handlePushBatch requestId destination roots entries input)) ↔
      Refused roots ∨ destination = [] ∨ NamesStay (Path.ofStr destination) roots entries := by
  unfold Daemon.handlePushBatch Daemon.resolveBatchDestinationRoots Daemon.ensureUniqueRootNames
  by_cases hroots : roots = []
  · simp [hroots, Refused]
  · cases hdup : duplicateRoot [] roots with
    | some d => simp [hroots, Refused, hdup, Prog.ofExcept]
    | none =>
      by_cases hdest : destination = []
      · simp [hroots, hdest, Act.bail, Prog.ofExcept]
      · rw [← all_receive (Daemon.pushReceiver requestId)
          (str "failed to stat remote destination " ++ (Path.ofStr destination).display)
          (str "remote destination is not a directory: " ++ destination) _ (endsWithSlash destination)]
        simp only [hroots, Refused, hdup, hdest, Prog.ofExcept, ↓reduceIte, Prog.pure_bind,
          Option.isSome_none, Bool.false_eq_true, or_self, false_or, all_bind, Prog.pure_eq,
          Prog.all_pure, implies_true, and_true]

theorem all_receiveLocalBatch (destination : Str) (roots : List TransferRoot) (entries : List TransferEntry) :
    (∀ input, All (Contained (Path.ofStr destination)) (Client.receiveLocalBatch destination roots entries input)) ↔
      Refused roots ∨ NamesStay (Path.ofStr destination) roots entries := by
  unfold Client.receiveLocalBatch Client.resolveLocalBatchRoots Client.ensureUniqueRootNames
  by_cases hroots : roots = []
  · simp [hroots, Refused]
  · cases hdup : duplicateRoot [] roots with
    | some d => simp [hroots, Refused, hdup, Prog.ofExcept]
    | none =>
      rw [← all_receive Client.pullReceiver
        (str "failed to stat local destination " ++ (Path.ofStr destination).display)
        (str "local destination is not a directory: " ++ (Path.ofStr destination).display) _
        (endsWithSlash destination)]
      simp only [hroots, Refused, hdup, Prog.ofExcept, ↓reduceIte, Prog.pure_bind, Option.isSome_none,
        Bool.false_eq_true, or_self, false_or]

/-- Source names that are single names keep every batch at its destination. -/
theorem namesStay_of_single_names {destination : Path} {roots : List TransferRoot} (entries : List TransferEntry)
    (h : ∀ root ∈ roots, ∃ name : Name, Path.ofStr root.sourceName = Path.ofNames [name]) :
    NamesStay destination roots entries := by
  intro entry _ root names hroot _
  obtain ⟨name, hname⟩ := h root (List.mem_of_getElem? hroot)
  have hunder := TransferRoot.under_of_name destination hname
  obtain ⟨habs, hcomps⟩ := Path.comps_push names (root.under destination)
  refine entryStays_of_names entry (habs.trans hunder.1) (name :: names) ?_
  rw [hcomps, hunder.2]
  simp

/-- **A batch stays at its destination exactly when its source names keep it
there.** Whatever the operating system answers and whatever comes over the
connection, the daemon receiving a push, and the client receiving a pull,
create, open for writing and chmod only what lies at or below the destination,
and create only missing parents of it besides, if and only if the roots are
refused or every entry up to the first that cannot be addressed has a source
name that stays. -/
theorem batch_contained_iff (requestId : UInt32) (destination : Str) (roots : List TransferRoot)
    (entries : List TransferEntry) :
    ((∀ input, All (Contained (Path.ofStr destination))
        (Daemon.handlePushBatch requestId destination roots entries input)) ↔
      Refused roots ∨ destination = [] ∨ NamesStay (Path.ofStr destination) roots entries) ∧
    ((∀ input, All (Contained (Path.ofStr destination))
        (Client.receiveLocalBatch destination roots entries input)) ↔
      Refused roots ∨ NamesStay (Path.ofStr destination) roots entries) :=
  ⟨all_handlePushBatch requestId destination roots entries, all_receiveLocalBatch destination roots entries⟩

/-- A source name `../evil` leaves the destination `/in`, on both sides. -/
theorem batch_escapes :
    let roots : List TransferRoot := [⟨str "../evil", .file, 420⟩]
    let entries : List TransferEntry := [⟨0, [], .file, 420, 0⟩]
    (¬ ∀ input, All (Contained (Path.ofStr (str "/in"))) (Daemon.handlePushBatch 1 (str "/in") roots entries input)) ∧
      ¬ ∀ input, All (Contained (Path.ofStr (str "/in"))) (Client.receiveLocalBatch (str "/in") roots entries input) := by
  have hdup : ¬ Refused [⟨str "../evil", .file, 420⟩] := by unfold Refused; decide
  have hleaves : ¬ NamesStay (Path.ofStr (str "/in")) [⟨str "../evil", .file, 420⟩] [⟨0, [], .file, 420, 0⟩] := by
    intro h
    have := h ⟨0, [], .file, 420, 0⟩ (by decide) ⟨str "../evil", .file, 420⟩ [] rfl (by decide)
    revert this
    decide
  constructor
  · rw [all_handlePushBatch]
    rintro (h | h | h)
    · exact hdup h
    · revert h; decide
    · exact hleaves h
  · rw [all_receiveLocalBatch]
    rintro (h | h)
    · exact hdup h
    · exact hleaves h

end Rsdb
