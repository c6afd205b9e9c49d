/-
# What a transfer is verified by

After a transfer the client compares what it has with what the other side has.
Its own tree it walks itself (`collect_local_transfer_state`); of the other one
it asks for the stat of the root and, if that is a directory, for a listing of
everything below (`collect_remote_transfer_state`). Both come to a map from
relative paths to what is there, and `transfer_states_match` asks of every path
of the one that the other has the same there.

Each walk records what is at every place below its root, the root included
(`Recorded`), whatever the paths of the two roots are. So the comparison is one
of trees (`transfer_states_match_trees`).
-/
import Mathlib.Data.List.AList
import Rsdb.Daemon.FsListLaw
import Rsdb.Daemon.Request
import Rsdb.Transfer.Push

namespace Rsdb

open Os (SameTree ownerRead ownerSearch)
open Prog (run run_bind_ok wp wp_bind wp_call wp_mono wp_attempt wp_iff_run)
open Daemon (FsEnv Walkable digestOf)

namespace Client

/-! ### The states of the two sides -/

/-- What is compared of a path: its kind, the size of a file, and its digest if one is known. -/
structure TransferPathState where
  kind : FsEntryKind
  size : Option ℕ
  sha256 : Option Str
  deriving DecidableEq

/-- The states by their relative paths. -/
abbrev TransferState := AList fun _ : Str => TransferPathState

/-- A digest is compared where both sides have one. -/
def TransferPathState.matches (expected actual : TransferPathState) : Bool :=
  expected.kind = actual.kind && expected.size = actual.size &&
    match expected.sha256, actual.sha256 with
    | some expected, some actual => expected = actual
    | some _, none => false
    | _, _ => true

/-- Everything that is expected is there, and matches. -/
def transferStatesMatch (expected actual : TransferState) : Bool :=
  expected.entries.all fun entry => (actual.lookup entry.1).any entry.2.matches

/-- The pieces after some components, from the next one on. -/
def dropPieces : ℕ → List Str → List Str
  | _, [] => []
  | 0, piece :: pieces => if piece = [] ∨ piece = dotName then dropPieces 0 pieces else piece :: pieces
  | n + 1, piece :: pieces => dropPieces (if piece = [] ∨ piece = dotName then n + 1 else n) pieces

/-- `strip_prefix`: what is left of a path after the components of another, without
what says nothing at its end. -/
def stripRoot (root path : Path) : Option Path :=
  match splitSlash path.text with
  | [] => none
  | first :: rest =>
    if root.isEmpty then some (if path.isEmpty then path else ⟨Path.joinPieces first (Path.trimPieces rest)⟩)
    else if root.abs = path.abs ∧ root.comps <+: path.comps then
      let later := dropPieces (if path.abs then root.comps.length else root.comps.length - 1) rest
      some ⟨Path.joinSlash (Path.trimPieces later)⟩
    else none

/-- A path of a listing, from the listed root on. -/
def relativeTransferPath (root path : Path) : Except AnyhowError Str :=
  if root.abs = path.abs ∧ root.comps = path.comps then .ok []
  else
    match stripRoot root path with
    | none => .error ((AnyhowError.bail (str "prefix not found")).context
        (str "path " ++ path.display ++ str " is not under root " ++ root.display))
    | some relative => pathToTransferString relative

/-- A hash is asked for or not. -/
def hashWanted (includeHash : Bool) : Option HashAlgorithm := if includeHash then some .sha256 else none

section

variable (env : FsEnv) (includeHash : Bool)

/-! ### The client's own tree -/

/-- The children of a directory in turn. -/
def collectLocalChildren (collect : Path → Metadata → TransferState → Act TransferState) (path : Path) :
    List Name → TransferState → Act TransferState
  | [], state => pure state
  | name :: names, state => do
    let child := path.push name
    let metadata ← Act.ioContext (str "failed to stat local path " ++ child.display) (← Act.lstat child)
    let state ← collect child metadata state
    collectLocalChildren collect path names state

/-- `levels` bounds the levels of directories. -/
def collectLocalTransferStateRecursive (root : Path) : ℕ → Path → Metadata → TransferState → Act TransferState
  | 0, _, _, _ => Act.bail (str "too many levels of directories")
  | levels + 1, path, metadata, state => do
    let relative ← .ofExcept (relativeTransferPath root path)
    let digest ← Daemon.hashOf env.sha256 env.reads path metadata (hashWanted includeHash)
    let state := state.insert relative
      ⟨metadata.kind, if metadata.isFile then some metadata.size else none, digest⟩
    if metadata.isDir then do
      let names ← Act.ioContext (str "failed to read local directory " ++ path.display) (← Act.readDir path)
      collectLocalChildren (collectLocalTransferStateRecursive root levels) path (Daemon.sorted names) state
    else pure state

/-- The states below a local path. -/
def collectLocalTransferState (root : Path) : Act TransferState := do
  let metadata ← Act.ioContext (str "failed to stat local path " ++ root.display) (← Act.lstat root)
  collectLocalTransferStateRecursive env includeHash root env.depth root metadata ∅

/-! ### The other side's -/

variable (codec : Codec)

/-- `agent_request`: what the daemon does for the request, and its answer. -/
def askDaemon (request : ControlRequest) (operation : Act ControlResponse) : Act ControlResponse :=
  match writeJsonFrame ([] : Bytes) .request clientRequestId (codec.request request) with
  | (.error err, _) => .fail (err.context (str "failed to send request"))
  | (.ok (), _) => do
    let result ← operation.attempt
    match Daemon.fsAnswer codec.response result with
    | .error code message => .fail (remoteControlError code message)
    | response => pure response

/-- The state a stat of the other side gives. -/
def transferStateFromStat (stat : AgentFsStat) : Except AnyhowError TransferPathState :=
  match stat.kind with
  | none => .error (.bail (str "fs.stat returned no kind for existing path " ++ stat.path))
  | some kind => .ok ⟨kind, if kind = .file then some (stat.size.getD 0) else none, stat.sha256⟩

/-- The state an entry of a listing gives. -/
def transferStateFromEntry (entry : AgentFsListEntry) : TransferPathState :=
  ⟨entry.kind, if entry.kind = .file then some entry.size else none, entry.sha256⟩

/-- The entries of a listing in turn. -/
def addEntries (root : Path) : List AgentFsListEntry → TransferState → Except AnyhowError TransferState
  | [], state => .ok state
  | entry :: entries, state => do
    let relative ← relativeTransferPath root (.ofStr entry.path)
    addEntries root entries (state.insert relative (transferStateFromEntry entry))

section

variable {C : Type} {A : C → Type} {ε : Type}

/-- The stat in an answer, or what becomes of another answer. -/
def statIn (unexpected : ControlResponse → ε) : ControlResponse → Prog C A ε AgentFsStat
  | .fsStat stat => .pure stat
  | other => .fail (unexpected other)

/-- The listing in an answer. -/
def listIn (unexpected : ControlResponse → ε) : ControlResponse → Prog C A ε (List AgentFsListEntry)
  | .fsList entries => .pure entries
  | other => .fail (unexpected other)

/-- `collect_remote_transfer_state`, by how the stat and the listing are asked for and
what becomes of an error of the client's own: nothing, if nothing is there. -/
def collectRemotely (fsStat : Str → Prog C A ε AgentFsStat) (fsList : Str → Prog C A ε (List AgentFsListEntry))
    (internally : {α : Type} → Except AnyhowError α → Prog C A ε α) (root : Path) : Prog C A ε (Option TransferState) := do
  let rootString := utf8Lossy root.display
  let stat ← fsStat rootString
  if stat.present = false then pure none
  else do
    let rootState ← internally (transferStateFromStat stat)
    let state := (∅ : TransferState).insert [] rootState
    if stat.kind = some .directory then do
      let entries ← fsList rootString
      let state ← internally (addEntries root entries state)
      pure (some state)
    else pure (some state)

end

/-- `remote_fs_stat_request`, to a daemon on this state. -/
def remoteFsStatRequest (path : Str) (hash : Option HashAlgorithm) : Act AgentFsStat :=
  askDaemon codec (.fsStat path hash)
    (Daemon.responding (Daemon.handleFsStat env.sha256 env.reads env.mtimeUnixMs path hash) .fsStat) >>=
      statIn (unexpectedResponse codec)

/-- `remote_fs_list_request`, to a daemon on this state. -/
def remoteFsListRequest (path : Str) (hash : Option HashAlgorithm) : Act (List AgentFsListEntry) :=
  askDaemon codec (.fsList path true none true hash)
    (Daemon.responding (Daemon.handleFsList env path ⟨true, none, true, hash⟩) .fsList) >>=
      listIn (unexpectedResponse codec)

/-- `collect_remote_transfer_state`, of a daemon on this state. -/
def collectRemoteTransferState (root : Path) : Act (Option TransferState) :=
  collectRemotely (fun path => remoteFsStatRequest env codec path (hashWanted includeHash))
    (fun path => remoteFsListRequest env codec path (hashWanted includeHash)) Prog.ofExcept root

end

/-! ### What a walk records -/

/-- The state of what is there. -/
def stateOf (sha256 : Bytes → Str) (includeHash : Bool) (obj : Obj) : TransferPathState :=
  ⟨obj.kind, obj.fileSize, digestOf sha256 (hashWanted includeHash) obj⟩

/-- The relative path of a place. -/
def relativeOf (k : Loc) : Str := Path.joinSlash (k.map Subtype.val)

theorem relativeOf_injective : Function.Injective relativeOf := by
  intro k k' h
  have hnames := congrArg relativeNames h
  rw [relativeOf, relativeOf, relativeNames_joinSlash, relativeNames_joinSlash] at hnames
  exact Option.some.inj hnames

/-- The state has what is at these places below `l`, and nothing else. -/
def Recorded (sha256 : Bytes → Str) (includeHash : Bool) (os : Os) (l : Loc) (places : Loc → Prop)
    (state : TransferState) : Prop :=
  ∀ key s, state.lookup key = some s ↔
    ∃ k obj, places k ∧ os.view (l ++ k) = some obj ∧ key = relativeOf k ∧ s = stateOf sha256 includeHash obj

section

variable {sha256 : Bytes → Str} {includeHash : Bool} {os : Os} {l : Loc} {places places' : Loc → Prop}
  {state : TransferState}

theorem Recorded.congr (h : Recorded sha256 includeHash os l places state)
    (hplaces : ∀ k obj, os.view (l ++ k) = some obj → (places' k ↔ places k)) :
    Recorded sha256 includeHash os l places' state := by
  intro key s
  rw [h key s]
  refine exists_congr fun k => exists_congr fun obj => ?_
  constructor
  · rintro ⟨hk, hv, hrest⟩
    exact ⟨(hplaces k obj hv).mpr hk, hv, hrest⟩
  · rintro ⟨hk, hv, hrest⟩
    exact ⟨(hplaces k obj hv).mp hk, hv, hrest⟩

theorem Recorded.empty (sha256 : Bytes → Str) (includeHash : Bool) (os : Os) (l : Loc) :
    Recorded sha256 includeHash os l (fun _ => False) ∅ := by
  intro key s
  simp

/-- One more place. -/
theorem Recorded.insert (h : Recorded sha256 includeHash os l places state) {k : Loc} {obj : Obj}
    (hv : os.view (l ++ k) = some obj) :
    Recorded sha256 includeHash os l (fun k' => places k' ∨ k' = k)
      (state.insert (relativeOf k) (stateOf sha256 includeHash obj)) := by
  intro key s
  by_cases hkey : key = relativeOf k
  · subst hkey
    rw [AList.lookup_insert]
    constructor
    · intro heq
      exact ⟨k, obj, Or.inr rfl, hv, rfl, (Option.some.inj heq).symm⟩
    · rintro ⟨k', obj', -, hv', hrel, rfl⟩
      obtain rfl := relativeOf_injective hrel
      rw [hv] at hv'
      rw [Option.some.inj hv']
  · rw [AList.lookup_insert_ne hkey, h key s]
    refine exists_congr fun k' => exists_congr fun obj' => and_congr_left fun hrest => ?_
    constructor
    · exact Or.inl
    · rintro (hplace | rfl)
      · exact hplace
      · exact absurd hrest.2.1 hkey

end

/-! ### Relative paths -/

/-- What is left starts with a component. -/
theorem head?_dropPieces : ∀ (n : ℕ) (pieces : List Str), ∀ piece ∈ (dropPieces n pieces).head?,
    ¬ (piece = [] ∨ piece = dotName)
  | n, [], piece, h => by cases n <;> cases h
  | 0, piece :: pieces, q, h => by
    rw [dropPieces] at h
    split at h
    · exact head?_dropPieces 0 pieces q h
    · rename_i hsays
      obtain rfl := Option.some.inj h
      exact hsays
  | n + 1, piece :: pieces, q, h => head?_dropPieces _ pieces q h

theorem mem_of_dropPieces : ∀ {n : ℕ} {pieces : List Str} {piece : Str}, piece ∈ dropPieces n pieces → piece ∈ pieces
  | n, [], piece, h => by cases n <;> cases h
  | 0, p :: pieces, piece, h => by
    rw [dropPieces] at h
    split at h
    · exact List.mem_cons_of_mem p (mem_of_dropPieces h)
    · exact h
  | n + 1, p :: pieces, piece, h => List.mem_cons_of_mem p (mem_of_dropPieces h)

theorem later_dropPieces : ∀ (n : ℕ) {pieces : List Str}, (∀ piece ∈ pieces, slashByte ∉ piece) →
    Path.later (dropPieces n pieces) = (Path.later pieces).drop n
  | n, [], _ => by cases n <;> rfl
  | n, piece :: pieces, h => by
    obtain ⟨hpiece, hrest⟩ := List.forall_mem_cons.mp h
    have hlater : Path.later (piece :: pieces) = Path.later [piece] ++ Path.later pieces := by
      rw [Path.later, Path.later, Path.later, ← List.filter_append, ← List.filterMap_append, List.singleton_append]
    by_cases hnothing : piece = [] ∨ piece = dotName
    · have hnone : Path.later [piece] = [] := by rcases hnothing with rfl | rfl <;> rfl
      have ih := later_dropPieces n hrest
      rw [hlater, hnone, List.nil_append, ← ih]
      cases n <;> simp [dropPieces, hnothing]
    · have hone : (Path.later [piece]).length = 1 := by
        obtain ⟨c, hc, hcur⟩ := Path.ofPiece_ne_cur hpiece hnothing
        simp [Path.later, hc, hcur]
      cases n with
      | zero => simp [dropPieces, hnothing]
      | succ n =>
        rw [dropPieces, if_neg hnothing, later_dropPieces n hrest, hlater, List.drop_append, hone]
        simp [hone]

/-- What is left of a path some names below the root. -/
theorem stripRoot_below {root path : Path} {k : List Name} (habs : path.abs = root.abs)
    (hcomps : path.comps = root.comps ++ k.map .normal) (hne : k ≠ []) :
    ∃ relative, stripRoot root path = some relative ∧ relative.abs = false ∧ relative.comps = k.map .normal := by
  obtain ⟨first, rest, hsplit⟩ := List.exists_cons_of_ne_nil (Path.splitSlash_ne_nil path.text)
  have hfirst : slashByte ∉ first := Path.slash_not_mem_splitSlash path.text first (hsplit ▸ List.mem_cons_self)
  have hrest : ∀ piece ∈ rest, slashByte ∉ piece := fun piece hpiece =>
    Path.slash_not_mem_splitSlash path.text piece (hsplit ▸ List.mem_cons_of_mem first hpiece)
  have hpath := Path.comps_eq hsplit
  simp only [stripRoot, hsplit]
  cases hempty : root.isEmpty with
  | true =>
    obtain ⟨hrootabs, hrootcomps⟩ := Path.isEmpty_iff.mp hempty
    rw [hrootcomps, List.nil_append] at hcomps
    have hno : path.isEmpty = false := by simp [Path.isEmpty_eq, hcomps, hne]
    have htrim : ∀ piece ∈ Path.trimPieces rest, slashByte ∉ piece := fun piece h =>
      hrest piece ((Path.trimPieces_kept rest).subset h)
    refine ⟨_, by rw [hno]; rfl, ?_, ?_⟩
    · refine (Path.joinPieces_abs hfirst htrim).trans (decide_eq_false fun hnil => ?_)
      rcases eq_or_ne rest [] with hnone | hsome
      · rw [hpath, hnil, hnone] at hcomps
        exact hne (List.map_eq_nil_iff.mp hcomps.symm)
      · have hroot : path.abs = true := decide_eq_true ((Path.head?_eq_slash_iff hsplit).mpr ⟨hnil, hsome⟩)
        rw [habs, hrootabs] at hroot
        cases hroot
    · refine (Path.joinPieces_comps hfirst htrim).trans ?_
      rw [Path.later_trimPieces, ← hpath, hcomps]
  | false =>
    rw [if_neg Bool.false_ne_true, if_pos ⟨habs.symm, hcomps ▸ List.prefix_append _ _⟩]
    have hlater : Path.later (dropPieces (if path.abs then root.comps.length else root.comps.length - 1) rest) =
        k.map .normal := by
      rw [later_dropPieces _ hrest]
      cases hroot : path.abs with
      | true =>
        obtain ⟨rfl, -⟩ := (Path.head?_eq_slash_iff hsplit).mp (of_decide_eq_true hroot)
        have hall : Path.later rest = root.comps ++ k.map .normal := hpath.symm.trans hcomps
        rw [hall, if_pos rfl, List.drop_left]
      | false =>
        obtain ⟨c, cs, hcs⟩ : ∃ c cs, root.comps = c :: cs := by
          refine List.exists_cons_of_ne_nil fun hnil => ?_
          rw [Path.isEmpty_eq, ← habs, hroot, hnil] at hempty
          cases hempty
        rw [hpath, hcs] at hcomps
        have hall : Path.later rest = cs ++ k.map .normal := by
          cases hc : Comp.ofPiece first with
          | some d =>
            rw [hc] at hcomps
            exact (List.cons.inj hcomps).2
          | none =>
            have hnil : first = [] := not_not.mp fun hsome => Path.ofPiece_ne_none hsome hfirst hc
            have hlast : rest = [] := not_not.mp fun hsome =>
              of_decide_eq_false hroot ((Path.head?_eq_slash_iff hsplit).mpr ⟨hnil, hsome⟩)
            rw [hc, hlast] at hcomps
            cases hcomps
        rw [hall, hcs, if_neg Bool.false_ne_true, List.length_cons, Nat.add_sub_cancel, List.drop_left]
    obtain ⟨piece, pieces, hpieces⟩ : ∃ piece pieces, Path.trimPieces
        (dropPieces (if path.abs then root.comps.length else root.comps.length - 1) rest) = piece :: pieces := by
      refine List.exists_cons_of_ne_nil fun hnil => hne (List.map_eq_nil_iff.mp (hlater.symm.trans ?_))
      rw [← Path.later_trimPieces, hnil]
      rfl
    have hkept := hpieces ▸ Path.trimPieces_kept
      (dropPieces (if path.abs then root.comps.length else root.comps.length - 1) rest)
    have hslash : ∀ q ∈ piece :: pieces, slashByte ∉ q := fun q hq => hrest q (mem_of_dropPieces (hkept.subset hq))
    obtain ⟨tail, htail⟩ := hkept
    have hsays := head?_dropPieces _ rest piece (by rw [← htail]; rfl)
    obtain ⟨c, hc, hcur⟩ := Path.ofPiece_ne_cur (hslash piece List.mem_cons_self) hsays
    have hrejoined := Path.splitSlash_joinSlash (List.cons_ne_nil piece pieces) hslash
    rw [← Path.later_trimPieces, hpieces, Path.later, List.filterMap_cons, hc, List.filter_cons,
      if_pos (by simpa using hcur)] at hlater
    refine ⟨_, rfl, ?_, ?_⟩
    · rw [hpieces]
      exact decide_eq_false fun h => hsays (Or.inl ((Path.head?_eq_slash_iff hrejoined).mp h).1)
    · rw [hpieces]
      exact (Path.comps_eq hrejoined).trans (by rw [hc]; exact hlater)

/-- A path some names below the root. -/
theorem relativeTransferPath_below {root path : Path} {k : List Name} (habs : path.abs = root.abs)
    (hcomps : path.comps = root.comps ++ k.map .normal) (hk : ∀ n ∈ k, isUtf8 n.1 = true) :
    relativeTransferPath root path = .ok (relativeOf k) := by
  rcases eq_or_ne k [] with rfl | hne
  · rw [relativeTransferPath, if_pos ⟨habs.symm, by simpa using hcomps.symm⟩]
    rfl
  · have hlonger : ¬ (root.abs = path.abs ∧ root.comps = path.comps) := by
      rintro ⟨-, heq⟩
      have hlen := congrArg List.length (heq.trans hcomps)
      rw [List.length_append, List.length_map] at hlen
      have hpos := List.length_pos_of_ne_nil hne
      omega
    obtain ⟨relative, hstrip, hrelabs, hrelcomps⟩ := stripRoot_below habs hcomps hne
    rw [relativeTransferPath, if_neg hlonger, hstrip]
    show pathToTransferString relative = _
    rw [pathToTransferString_of_names hrelabs hrelcomps, map_utf8Lossy hk]
    rfl

/-! ### The client's walk -/

section

variable {env : FsEnv} {includeHash : Bool} {D : Prop} {os : Os} {root : Path} {l : Loc}

/-- The children of a directory in turn, each with what is below it. -/
theorem wp_collectLocalChildren {collect : Path → Metadata → TransferState → Act TransferState} {k : Loc} {mode : ℕ}
    (hp : os.lookup true (k.foldl Path.push root) = .ok (l ++ k, .inr mode))
    (hD : D → os.may mode ownerSearch = true)
    (hcollect : ∀ n obj, os.lookup false ((k ++ [n]).foldl Path.push root) = .ok (l ++ (k ++ [n]), obj) →
      ∀ places state t, Recorded env.sha256 includeHash os l places state → SameTree os t →
        wp Os.step (fun state' t' => Recorded env.sha256 includeHash os l (fun k' => places k' ∨ k ++ [n] <+: k') state' ∧
          SameTree os t') (fun _ _ => ¬ D) (collect ((k ++ [n]).foldl Path.push root) (os.metadata (l ++ (k ++ [n])) obj) state) t) :
    ∀ {names : List Name}, (∀ n ∈ names, ∃ obj, os.view (l ++ k ++ [n]) = some obj) →
      ∀ {places : Loc → Prop} {state : TransferState}, Recorded env.sha256 includeHash os l places state →
      ∀ t, SameTree os t →
        wp Os.step (fun state' t' => Recorded env.sha256 includeHash os l
            (fun k' => places k' ∨ ∃ n ∈ names, k ++ [n] <+: k') state' ∧ SameTree os t')
          (fun _ _ => ¬ D) (collectLocalChildren collect (k.foldl Path.push root) names state) t
  | [], _, places, state, hstate, t, hsame => ⟨hstate.congr fun k' _ _ => by simp, hsame⟩
  | n :: names, hmem, places, state, hstate, t, hsame => by
    obtain ⟨obj, hv⟩ := hmem n List.mem_cons_self
    have hpush : (k.foldl Path.push root).push n = (k ++ [n]).foldl Path.push root := by
      rw [List.foldl_append]
      rfl
    rw [collectLocalChildren]
    show wp Os.step _ _ (.call (.lstat ((k.foldl Path.push root).push n)) _) t
    rw [wp_call, hsame.step_lstat]
    cases hsearch : os.may mode ownerSearch with
    | false =>
      rw [Os.lookup_push_denied hp hsearch]
      intro hd
      rw [hD hd] at hsearch
      cases hsearch
    | true =>
      have hchild := Os.lookup_push hp hsearch hv
      rw [hchild]
      show wp Os.step _ _ (collect ((k.foldl Path.push root).push n) (os.metadata (l ++ k ++ [n]) obj) state >>= _) t
      rw [hpush, List.append_assoc] at hchild
      rw [wp_bind, hpush, List.append_assoc]
      refine wp_mono (fun state₁ t₁ ⟨hstate₁, hsame₁⟩ => ?_) (hcollect n obj hchild places state t hstate hsame)
      have hrest : ∀ m ∈ names, ∃ obj, os.view (l ++ k ++ [m]) = some obj := fun m hm => hmem m (List.mem_cons_of_mem n hm)
      refine wp_mono (fun state₂ t₂ ⟨hstate₂, hsame₂⟩ => ⟨hstate₂.congr fun k' _ _ => ?_, hsame₂⟩)
        (wp_collectLocalChildren hp hD hcollect hrest hstate₁ t₁ hsame₁)
      simp only [List.mem_cons, exists_eq_or_imp, or_assoc]

/-- What is at a place, and all that is below it. -/
theorem wp_collectLocalTransferStateRecursive
    (hnames : ∀ k obj, os.view (l ++ k) = some obj → ∀ n ∈ k, isUtf8 n.1 = true) :
    ∀ {levels : ℕ} {k : Loc} {obj : Obj}, os.lookup false (k.foldl Path.push root) = .ok (l ++ k, obj) →
      (D → Walkable env.reads os (l ++ k) levels) →
      ∀ {places : Loc → Prop} {state : TransferState} {t : Os}, Recorded env.sha256 includeHash os l places state →
      SameTree os t →
        wp Os.step (fun state' t' => Recorded env.sha256 includeHash os l (fun k' => places k' ∨ k <+: k') state' ∧
            SameTree os t') (fun _ _ => ¬ D)
          (collectLocalTransferStateRecursive env includeHash root levels (k.foldl Path.push root) (os.metadata (l ++ k) obj) state) t
  | 0, k, obj, hp, hD, places, state, t, _, _ => fun hd => by
    have hlt := (hD hd).shallow [] obj (by rw [List.append_nil]; exact (Os.lookup_eq_ok hp).2.1)
    exact Nat.not_lt_zero _ hlt
  | levels + 1, k, obj, hp, hD, places, state, t, hstate, hsame => by
    have hv := (Os.lookup_eq_ok hp).2.1
    obtain ⟨habs, hcomps⟩ := Path.comps_push k root
    have hfile : D → ∀ mode content, obj = .inl (.file mode content) →
        os.may mode ownerRead = true ∧ content.length < env.reads := by
      rintro hd mode content rfl
      have hv' : os.view (l ++ k ++ []) = some (.inl (.file mode content)) := by rw [List.append_nil, hv]
      exact ⟨(hD hd).readable.file [] mode content hv', (hD hd).short [] mode content hv'⟩
    rw [collectLocalTransferStateRecursive, relativeTransferPath_below habs hcomps (hnames k obj hv), Prog.ofExcept_ok,
      Prog.pure_bind, wp_bind]
    refine wp_mono (fun digest t₁ hhashed => ?_) (Daemon.wp_hashOf hp hfile (hashWanted includeHash) hsame)
    obtain ⟨rfl, hsame₁⟩ := hhashed
    have hstate₁ := hstate.insert hv
    rw [Os.fileSize_metadata]
    rcases obj with leaf | mode
    · have hno : (os.metadata (l ++ k) (.inl leaf)).isDir = false := by cases leaf <;> rfl
      rw [hno, if_neg Bool.false_ne_true]
      refine ⟨hstate₁.congr fun k' obj' hv' => or_congr_right ⟨?_, ?_⟩, hsame₁⟩
      · rintro ⟨tail, rfl⟩
        cases tail with
        | nil => exact List.append_nil k
        | cons n tail =>
          rw [← List.append_assoc, Os.view, DirTree.view_append_of_leaf hv] at hv'
          cases hv'
      · rintro rfl
        exact List.prefix_rfl
    · have hdir : os.lookup true (k.foldl Path.push root) = .ok (l ++ k, .inr mode) := Os.lookup_of_dir hp
      have hmay : D → os.may mode ownerRead = true ∧ os.may mode ownerSearch = true := fun hd =>
        (hD hd).readable.dir [] mode (by rw [List.append_nil, hv])
      show wp Os.step _ _ (.call (.readDir (k.foldl Path.push root)) _) t₁
      rw [wp_call]
      have hdir₁ := (hsame₁.lookup true (k.foldl Path.push root)).trans hdir
      cases hread : t₁.may mode ownerRead with
      | false =>
        rw [Os.step_readDir_denied hdir₁ hread]
        intro hd
        rw [← hsame₁.toSameProcess.may, hread] at hmay
        cases (hmay hd).1
      | true =>
        obtain ⟨names, hanswer, hord, hmem⟩ := Os.step_readDir hdir₁ hread
        rw [hanswer]
        show wp Os.step _ _ (collectLocalChildren _ (k.foldl Path.push root) (Daemon.sorted names) _) t₁
        rw [Daemon.sorted_of_ascending hord]
        have hmem' : ∀ n, n ∈ names ↔ ∃ obj, os.view (l ++ k ++ [n]) = some obj := fun n => by rw [hmem, hsame₁.view]
        have hchildren := wp_collectLocalChildren hdir (fun hd => (hmay hd).2)
          (fun n obj hchild places state t hstate hsame =>
            wp_collectLocalTransferStateRecursive hnames hchild
              (fun hd => by rw [← List.append_assoc]; exact (hD hd).child n) hstate hsame)
          (fun n hn => (hmem' n).mp hn) hstate₁ t₁ hsame₁
        refine wp_mono (fun state' t' hfinal => ⟨hfinal.1.congr fun k' obj' hv' => ?_, hfinal.2⟩) hchildren
        rw [or_assoc]
        refine or_congr_right ⟨?_, ?_⟩
        · rintro ⟨tail, rfl⟩
          cases tail with
          | nil => exact Or.inl (List.append_nil k)
          | cons n tail =>
            have hassoc : l ++ (k ++ n :: tail) = l ++ k ++ [n] ++ tail := by simp
            rw [hassoc] at hv'
            exact Or.inr ⟨n, (hmem' n).mpr (DirTree.exists_view_of_append hv'), tail, by simp⟩
        · rintro (rfl | ⟨n, -, tail, rfl⟩)
          · exact List.prefix_rfl
          · exact ⟨n :: tail, by simp⟩

end

/-! ### What the other side answers -/

section

variable {env : FsEnv} {codec : Codec} {D : Prop} {os t : Os}

/-- A handler's result, as the client gets it. -/
theorem wp_askDaemon {α : Type} {request : ControlRequest} {handler : Act α} {respond : α → ControlResponse}
    {Q : α → Os → Prop} (hrespond : ∀ a code message, respond a ≠ .error code message)
    (hsent : D → (codec.request request).length ≤ maxPayloadLen)
    (hfits : D → ∀ a t', Q a t' → Daemon.Fits codec.response (respond a))
    (h : wp Os.step Q (fun _ _ => ¬ D) handler t) :
    wp Os.step (fun response t' => ∃ a, response = respond a ∧ Q a t') (fun _ _ => ¬ D)
      (askDaemon codec request (Daemon.responding handler respond)) t := by
  obtain ⟨hok, herr⟩ := wp_iff_run.mp h
  unfold askDaemon
  split
  · rename_i err stream hwrite
    intro hd
    rw [writeJsonFrame_of_le (hsent hd)] at hwrite
    cases hwrite
  · rw [wp_bind, wp_attempt, Daemon.responding, wp_bind, wp_iff_run]
    refine ⟨fun a t' hrun => ?_, fun err t' hrun => herr err t' hrun⟩
    show wp Os.step _ _ (match Daemon.fsAnswer codec.response (.ok (respond a)) with
      | .error code message => .fail (remoteControlError code message)
      | response => pure response) t'
    by_cases hfit : Daemon.Fits codec.response (respond a)
    · have hanswer : Daemon.fsAnswer codec.response (.ok (respond a)) = respond a := if_pos hfit
      rw [hanswer]
      split
      · rename_i code message heq
        exact absurd heq (hrespond a code message)
      · exact ⟨a, rfl, hok a t' hrun⟩
    · have hanswer : ∃ code message, Daemon.fsAnswer codec.response (.ok (respond a)) = .error code message :=
        ⟨_, _, if_neg hfit⟩
      obtain ⟨code, message, hanswer⟩ := hanswer
      rw [hanswer]
      exact fun hd => hfit (hfits hd a t' (hok a t' hrun))

variable {root : Path} {l : Loc} {obj : Obj} {includeHash : Bool}

/-- The stat of what is at a path. -/
def statOf (env : FsEnv) (os : Os) (path : Path) (hash : Option HashAlgorithm) (l : Loc) (obj : Obj) : AgentFsStat :=
  ⟨path.display, true, some obj.kind, some (os.size l obj), some (obj.mode &&& 0o7777), env.mtimeUnixMs path,
    digestOf env.sha256 hash obj⟩

/-- A path that leads somewhere is not empty. -/
theorem validateFsPath_of_lookup {path : Str} (hp : os.lookup false (.ofStr path) = .ok (l, obj)) :
    Daemon.validateFsPath path = .ok (.ofStr path) := by
  refine if_neg ?_
  rintro rfl
  cases hp

theorem wp_handleFsStat {path : Str} (hp : os.lookup false (.ofStr path) = .ok (l, obj))
    (hD : D → ∀ mode content, obj = .inl (.file mode content) →
      os.may mode ownerRead = true ∧ content.length < env.reads)
    (hash : Option HashAlgorithm) (hsame : SameTree os t) :
    wp Os.step (fun stat t' => stat = statOf env os (.ofStr path) hash l obj ∧ SameTree os t') (fun _ _ => ¬ D)
      (Daemon.handleFsStat env.sha256 env.reads env.mtimeUnixMs path hash) t := by
  rw [Daemon.handleFsStat, validateFsPath_of_lookup hp, Prog.ofExcept_ok, Prog.pure_bind]
  show wp Os.step _ _ (.call (.lstat (.ofStr path)) _) t
  rw [wp_call, hsame.step_lstat, hp]
  show wp Os.step _ _ (Daemon.buildFsStat env.sha256 env.reads env.mtimeUnixMs (.ofStr path) (os.metadata l obj) hash) t
  rw [Daemon.buildFsStat, wp_bind]
  refine wp_mono (fun digest t' ⟨hdigest, hsame'⟩ => ⟨?_, hsame'⟩) (Daemon.wp_hashOf hp hD hash hsame)
  rw [hdigest]
  rfl

theorem wp_handleFsList {path : Str} (htext : (Path.ofStr path).IsText) (hp : os.lookup false (.ofStr path) = .ok (l, obj))
    (hnames : ∀ k x, os.view (l ++ k) = some x → ∀ name ∈ k, isUtf8 name.1 = true)
    (listing : Daemon.FsListing) (hD : D → Walkable env.reads os l env.depth) (hsame : SameTree os t) :
    wp Os.step (fun entries t' => Daemon.ListedExactly env listing os (.ofStr path) entries (l, obj) ∧ SameTree os t')
      (fun _ _ => ¬ D) (Daemon.handleFsList env path listing) t := by
  rw [Daemon.handleFsList, validateFsPath_of_lookup hp, Prog.ofExcept_ok, Prog.pure_bind]
  exact Daemon.wp_blockingFsList htext hnames listing hp hD hsame

/-- The entries of a listing are recorded in turn. -/
theorem addEntries_recorded (hnames : ∀ k x, os.view (l ++ k) = some x → ∀ name ∈ k, isUtf8 name.1 = true)
    (listing : Daemon.FsListing) (hhash : listing.hash = hashWanted includeHash) :
    ∀ {items : List (Loc × Obj)}, (∀ item ∈ items, item.1 ≠ [] ∧ os.view (l ++ item.1) = some item.2) →
      ∀ {places : Loc → Prop} {state : TransferState}, Recorded env.sha256 includeHash os l places state →
      ∃ state', addEntries root
          (items.map fun item => Daemon.listedAt env listing os (item.1.foldl Path.push root) (l ++ item.1) item.2)
          state = .ok state' ∧
        Recorded env.sha256 includeHash os l (fun k => places k ∨ ∃ item ∈ items, k = item.1) state'
  | [], _, places, state, hstate => ⟨state, rfl, hstate.congr fun k _ _ => by simp⟩
  | (k, x) :: items, hitems, places, state, hstate => by
    obtain ⟨⟨hne, hv⟩, hrest⟩ := List.forall_mem_cons.mp hitems
    obtain ⟨hpabs, hpcomps⟩ := Path.comps_push k root
    have hrel : relativeTransferPath root (.ofStr (k.foldl Path.push root).display) = .ok (relativeOf k) :=
      relativeTransferPath_below hpabs hpcomps (hnames k x hv)
    have hentry : transferStateFromEntry (Daemon.listedAt env listing os (k.foldl Path.push root) (l ++ k) x) =
        stateOf env.sha256 includeHash x := by
      simp [transferStateFromEntry, Daemon.listedAt, stateOf, hhash, Os.size_of_kind]
    obtain ⟨state', hadd, hrecorded⟩ := addEntries_recorded hnames listing hhash hrest (hstate.insert hv)
    refine ⟨state', ?_, hrecorded.congr fun k' _ _ => ?_⟩
    · rw [List.map_cons, addEntries]
      show (relativeTransferPath root (.ofStr (k.foldl Path.push root).display) >>= _) = _
      rw [hrel]
      show addEntries root _ (state.insert (relativeOf k) (transferStateFromEntry _)) = _
      rw [hentry, hadd]
    · simp only [List.mem_cons, exists_eq_or_imp, or_assoc]

end

/-! ### What is collected -/

section

variable {env : FsEnv} {includeHash : Bool} {D : Prop} {os : Os} {root : Path} {l : Loc} {obj : Obj}

/-- The client's own tree, from its root on. -/
theorem wp_collectLocalTransferState (hp : os.lookup false root = .ok (l, obj))
    (hnames : ∀ k x, os.view (l ++ k) = some x → ∀ n ∈ k, isUtf8 n.1 = true)
    (hD : D → Walkable env.reads os l env.depth) :
    wp Os.step (fun state _ => Recorded env.sha256 includeHash os l (fun _ => True) state) (fun _ _ => ¬ D)
      (collectLocalTransferState env includeHash root) os := by
  rw [collectLocalTransferState]
  show wp Os.step _ _ (.call (.lstat root) _) os
  rw [wp_call, Os.step_lstat, hp]
  show wp Os.step _ _ (collectLocalTransferStateRecursive env includeHash root env.depth root (os.metadata l obj) ∅) os
  have hroot : os.lookup false (([] : Loc).foldl Path.push root) = .ok (l ++ [], obj) := by
    rw [List.append_nil]
    exact hp
  have hwalk := wp_collectLocalTransferStateRecursive hnames hroot (fun hd => by rw [List.append_nil]; exact hD hd)
    (Recorded.empty env.sha256 includeHash os l) (SameTree.refl os)
  rw [List.append_nil] at hwalk
  exact wp_mono (fun state _ ⟨hstate, _⟩ => hstate.congr fun k _ _ => by simp) hwalk

/-- How the other side's tree is listed. -/
def wholeListing (includeHash : Bool) : Daemon.FsListing := ⟨true, none, true, hashWanted includeHash⟩

variable {codec : Codec}

/-- The requests and the answers for a path fit a frame, and the daemon may read everything there. -/
structure Answerable (env : FsEnv) (codec : Codec) (includeHash : Bool) (os : Os) (path : Str) (l : Loc) (obj : Obj) :
    Prop where
  walkable : Walkable env.reads os l env.depth
  statRequest : (codec.request (.fsStat path (hashWanted includeHash))).length ≤ maxPayloadLen
  stat : Daemon.Fits codec.response (.fsStat (statOf env os (.ofStr path) (hashWanted includeHash) l obj))
  listRequest : (codec.request (.fsList path true none true (hashWanted includeHash))).length ≤ maxPayloadLen
  list : ∀ entries, Daemon.ListedExactly env (wholeListing includeHash) os (.ofStr path) entries (l, obj) →
    Daemon.Fits codec.response (.fsList entries)

theorem transferStateFromStat_statOf (os : Os) (path : Path) (l : Loc) (obj : Obj) :
    transferStateFromStat (statOf env os path (hashWanted includeHash) l obj) = .ok (stateOf env.sha256 includeHash obj) := by
  simp [transferStateFromStat, statOf, stateOf, Os.size_of_kind]

theorem wholeListing_wants (includeHash : Bool) (k : Loc) : (wholeListing includeHash).Wants k ↔ k ≠ [] := by
  simp [Daemon.FsListing.Wants, Daemon.FsListing.Reaches, wholeListing]

/-- The other side's tree, by the stat of its root and the listing. -/
theorem wp_collectRemoteTransferState (htext : root.IsText)
    (hp : os.lookup false (.ofStr root.display) = .ok (l, obj))
    (hnames : ∀ k x, os.view (l ++ k) = some x → ∀ n ∈ k, isUtf8 n.1 = true)
    (hD : D → Answerable env codec includeHash os root.display l obj) :
    wp Os.step (fun found _ => ∃ state, found = some state ∧ Recorded env.sha256 includeHash os l (fun _ => True) state)
      (fun _ _ => ¬ D) (collectRemoteTransferState env includeHash codec root) os := by
  have hv := (Os.lookup_eq_ok hp).2.1
  have hstring : utf8Lossy root.display = root.display := utf8Lossy_of_isUtf8 (Path.isUtf8_display htext)
  have hfile : D → ∀ mode content, obj = .inl (.file mode content) →
      os.may mode ownerRead = true ∧ content.length < env.reads := by
    rintro hd mode content rfl
    have hv' : os.view (l ++ []) = some (.inl (.file mode content)) := by rw [List.append_nil, hv]
    exact ⟨(hD hd).walkable.readable.file [] mode content hv', (hD hd).walkable.short [] mode content hv'⟩
  have hstat : wp Os.step (fun response t => ∃ stat, response = .fsStat stat ∧
        stat = statOf env os (.ofStr root.display) (hashWanted includeHash) l obj ∧ SameTree os t) (fun _ _ => ¬ D)
      (askDaemon codec (.fsStat root.display (hashWanted includeHash)) (Daemon.responding
        (Daemon.handleFsStat env.sha256 env.reads env.mtimeUnixMs root.display (hashWanted includeHash)) .fsStat)) os := by
    refine wp_askDaemon (fun a code message h => ?_) (fun hd => (hD hd).statRequest) (fun hd a t' hstat => ?_)
      (wp_handleFsStat hp hfile (hashWanted includeHash) (SameTree.refl os))
    · cases h
    · rw [hstat.1]
      exact (hD hd).stat
  rw [collectRemoteTransferState, collectRemotely, hstring, remoteFsStatRequest, wp_bind, wp_bind]
  refine wp_mono (fun response t hanswer => ?_) hstat
  obtain ⟨stat, rfl, rfl, hsame⟩ := hanswer
  show wp Os.step _ _ (Prog.ofExcept (transferStateFromStat _) >>= _) t
  rw [transferStateFromStat_statOf, Prog.ofExcept_ok, Prog.pure_bind]
  have hself : Recorded env.sha256 includeHash os l (fun k => k = [])
      ((∅ : TransferState).insert [] (stateOf env.sha256 includeHash obj)) :=
    (@Recorded.insert _ _ _ _ _ _ (Recorded.empty env.sha256 includeHash os l) [] obj (by rw [List.append_nil, hv])).congr
      fun k _ _ => by simp
  rcases obj with leaf | mode
  · have hno : Obj.kind (.inl leaf) ≠ .directory := by cases leaf <;> exact FsEntryKind.noConfusion
    show wp Os.step _ _ (if some (Obj.kind (.inl leaf)) = some .directory then _ else _) t
    rw [if_neg fun h => hno (Option.some.inj h)]
    refine ⟨_, rfl, hself.congr fun k x hx => ⟨fun _ => ?_, fun _ => trivial⟩⟩
    cases k with
    | nil => rfl
    | cons n k =>
      rw [Os.view, DirTree.view_append_of_leaf hv] at hx
      cases hx
  · have hlist : wp Os.step (fun response t' => ∃ entries, response = .fsList entries ∧
          Daemon.ListedExactly env (wholeListing includeHash) os (.ofStr root.display) entries (l, .inr mode) ∧
          SameTree os t') (fun _ _ => ¬ D)
        (askDaemon codec (.fsList root.display true none true (hashWanted includeHash)) (Daemon.responding
          (Daemon.handleFsList env root.display ⟨true, none, true, hashWanted includeHash⟩) .fsList)) t := by
      refine wp_askDaemon (fun a code message h => ?_) (fun hd => (hD hd).listRequest)
        (fun hd a t' hlisted => (hD hd).list a hlisted.1)
        (wp_handleFsList (Path.isText_ofStr (Path.isUtf8_display htext)) hp hnames (wholeListing includeHash)
          (fun hd => (hD hd).walkable) hsame)
      cases h
    show wp Os.step _ _ (remoteFsListRequest env codec root.display (hashWanted includeHash) >>= _) t
    rw [remoteFsListRequest, wp_bind, wp_bind]
    refine wp_mono (fun response t' hanswer => ?_) hlist
    obtain ⟨entries, rfl, ⟨_, items, hitems, rfl⟩, -⟩ := hanswer
    have hmem : ∀ item ∈ items, item.1 ≠ [] ∧ os.view (l ++ item.1) = some item.2 := by
      rintro ⟨k, x⟩ hitem
      obtain ⟨hwants, hview⟩ := (hitems.mem k x).mp hitem
      exact ⟨(wholeListing_wants includeHash k).mp hwants, hview⟩
    obtain ⟨state', hadd, hrecorded⟩ := @addEntries_recorded env os root l includeHash hnames (wholeListing includeHash) rfl
      items hmem _ _ hself
    show wp Os.step _ _ (Prog.ofExcept (addEntries root _ _) >>= _) t'
    rw [Path.ofStr_display, hadd]
    refine ⟨state', rfl, hrecorded.congr fun k x hx => ⟨fun _ => ?_, fun _ => trivial⟩⟩
    by_cases hk : k = []
    · exact Or.inl hk
    · exact Or.inr ⟨(k, x), (hitems.mem k x).mpr ⟨(wholeListing_wants includeHash k).mpr hk, hx⟩, rfl⟩

end

/-! ### What the comparison says -/

/-- The same kind of thing; for files of the same size, and with the same bytes, if hashes are compared. -/
def Obj.SameAs (includeHash : Bool) : Obj → Obj → Prop
  | .inl (.file _ content), .inl (.file _ content') =>
    content.length = content'.length ∧ (includeHash = true → content = content')
  | .inl (.symlink _), .inl (.symlink _) | .inl (.other _), .inl (.other _) | .inr _, .inr _ => True
  | _, _ => False

/-- Everything in a tree is in the other, at the same place below the root. -/
def Includes (includeHash : Bool) (os : Os) (l : Loc) (os' : Os) (l' : Loc) : Prop :=
  ∀ k obj, os.view (l ++ k) = some obj → ∃ obj', os'.view (l' ++ k) = some obj' ∧ Obj.SameAs includeHash obj obj'

theorem matches_stateOf_iff {sha256 : Bytes → Str} (hsha256 : Function.Injective sha256) (includeHash : Bool)
    (obj obj' : Obj) : (stateOf sha256 includeHash obj).matches (stateOf sha256 includeHash obj') = true ↔
      Obj.SameAs includeHash obj obj' := by
  match obj, obj' with
  | .inl (.file _ content), .inl (.file _ content') =>
    cases includeHash with
    | false => simp [stateOf, TransferPathState.matches, Obj.SameAs, hashWanted, digestOf, Obj.kind, Obj.fileSize]
    | true =>
      simp [stateOf, TransferPathState.matches, Obj.SameAs, hashWanted, digestOf, Obj.kind, Obj.fileSize,
        hsha256.eq_iff]
  | .inl (.symlink _), .inl (.symlink _) | .inl (.other _), .inl (.other _) | .inr _, .inr _ =>
    cases includeHash <;>
      simp [stateOf, TransferPathState.matches, Obj.SameAs, hashWanted, digestOf, Obj.kind, Obj.fileSize]
  | .inl (.file _ _), .inl (.symlink _) | .inl (.file _ _), .inl (.other _) | .inl (.file _ _), .inr _
  | .inl (.symlink _), .inl (.file _ _) | .inl (.symlink _), .inl (.other _) | .inl (.symlink _), .inr _
  | .inl (.other _), .inl (.file _ _) | .inl (.other _), .inl (.symlink _) | .inl (.other _), .inr _
  | .inr _, .inl (.file _ _) | .inr _, .inl (.symlink _) | .inr _, .inl (.other _) =>
    simp [stateOf, TransferPathState.matches, Obj.SameAs, Obj.kind]

theorem transferStatesMatch_iff (expected actual : TransferState) : transferStatesMatch expected actual = true ↔
    ∀ key s, expected.lookup key = some s → ∃ s', actual.lookup key = some s' ∧ s.matches s' = true := by
  rw [transferStatesMatch, List.all_eq_true]
  constructor
  · intro h key s hs
    have hentry := h ⟨key, s⟩ (AList.mem_lookup_iff.mp hs)
    exact (Option.any_eq_true _ _).mp hentry
  · rintro h ⟨key, s⟩ hentry
    obtain ⟨s', hs', hmatch⟩ := h key s (AList.mem_lookup_iff.mpr hentry)
    show (actual.lookup key).any s.matches = true
    rw [hs']
    exact hmatch

/-- Of states that record trees, one matches the other if the tree is included. -/
theorem Recorded.match_iff {sha256 : Bytes → Str} (hsha256 : Function.Injective sha256) {includeHash : Bool} {os os' : Os}
    {l l' : Loc} {state state' : TransferState} (h : Recorded sha256 includeHash os l (fun _ => True) state)
    (h' : Recorded sha256 includeHash os' l' (fun _ => True) state') :
    transferStatesMatch state state' = true ↔ Includes includeHash os l os' l' := by
  rw [transferStatesMatch_iff]
  constructor
  · intro hmatch k obj hv
    obtain ⟨s', hs', hsame⟩ := hmatch _ _ ((h _ _).mpr ⟨k, obj, trivial, hv, rfl, rfl⟩)
    obtain ⟨k', obj', -, hv', hkey, rfl⟩ := (h' _ _).mp hs'
    obtain rfl := relativeOf_injective hkey
    exact ⟨obj', hv', (matches_stateOf_iff hsha256 includeHash obj obj').mp hsame⟩
  · intro hincludes key s hs
    obtain ⟨k, obj, -, hv, rfl, rfl⟩ := (h _ _).mp hs
    obtain ⟨obj', hv', hsame⟩ := hincludes k obj hv
    exact ⟨_, (h' _ _).mpr ⟨k, obj', trivial, hv', rfl, rfl⟩, (matches_stateOf_iff hsha256 includeHash obj obj').mpr hsame⟩

/-- **Verification compares trees.** Of a tree of the client's and one of the
daemon's, one state matches the other if and only if everything in its tree is in
the other tree at the same place below the root; and both are collected where
everything may be read and the answers fit. -/
theorem transfer_states_match_trees (env : FsEnv) (codec : Codec) (includeHash : Bool)
    (hsha256 : Function.Injective env.sha256) {os os' : Os} {root root' : Path} {l l' : Loc} {obj obj' : Obj}
    (hp : os.lookup false root = .ok (l, obj)) (hnames : ∀ k x, os.view (l ++ k) = some x → ∀ n ∈ k, isUtf8 n.1 = true)
    (htext : root'.IsText) (hp' : os'.lookup false (.ofStr root'.display) = .ok (l', obj'))
    (hnames' : ∀ k x, os'.view (l' ++ k) = some x → ∀ n ∈ k, isUtf8 n.1 = true) :
    (∀ state t found t', run Os.step (collectLocalTransferState env includeHash root) os = (.ok state, t) →
      run Os.step (collectRemoteTransferState env includeHash codec root') os' = (.ok found, t') →
      ∃ state', found = some state' ∧
        (transferStatesMatch state state' = true ↔ Includes includeHash os l os' l') ∧
        (transferStatesMatch state' state = true ↔ Includes includeHash os' l' os l)) ∧
    (Walkable env.reads os l env.depth →
      ∃ state t, run Os.step (collectLocalTransferState env includeHash root) os = (.ok state, t)) ∧
    (Answerable env codec includeHash os' root'.display l' obj' →
      ∃ found t', run Os.step (collectRemoteTransferState env includeHash codec root') os' = (.ok found, t')) := by
  obtain ⟨hlocal, hwalks⟩ := wp_iff_run.mp (@wp_collectLocalTransferState env includeHash _ os root l obj hp hnames id)
  obtain ⟨hremote, hanswers⟩ := wp_iff_run.mp
    (@wp_collectRemoteTransferState env includeHash _ os' root' l' obj' codec htext hp' hnames' id)
  refine ⟨fun state t found t' hrun hrun' => ?_, fun hwalk => ?_, fun hanswer => ?_⟩
  · have hstate := hlocal state t hrun
    obtain ⟨state', rfl, hstate'⟩ := hremote found t' hrun'
    exact ⟨state', rfl, hstate.match_iff hsha256 hstate', hstate'.match_iff hsha256 hstate⟩
  · rcases hrun : run Os.step (collectLocalTransferState env includeHash root) os with ⟨result, t⟩
    cases result with
    | ok state => exact ⟨state, t, rfl⟩
    | error err => exact absurd hwalk (hwalks err t hrun)
  · rcases hrun : run Os.step (collectRemoteTransferState env includeHash codec root') os' with ⟨result, t⟩
    cases result with
    | ok found => exact ⟨found, t, rfl⟩
    | error err => exact absurd hanswer (hanswers err t hrun)

/-- A tree compared with itself. -/
theorem transfer_states_match_hidden_tree :
    ∃ state t state' t',
      run Os.step (collectLocalTransferState Daemon.walkEnv true (.ofStr (str "/"))) Daemon.hiddenTree = (.ok state, t) ∧
      run Os.step (collectRemoteTransferState Daemon.walkEnv true (.documented [] []) (.ofStr (str "/"))) Daemon.hiddenTree =
        (.ok (some state'), t') ∧
      (transferStatesMatch state state' = true ↔ Includes true Daemon.hiddenTree [] Daemon.hiddenTree []) ∧
      (transferStatesMatch state' state = true ↔ Includes true Daemon.hiddenTree [] Daemon.hiddenTree []) := by
  have hnames : ∀ k x, Daemon.hiddenTree.view ([] ++ k) = some x → ∀ n ∈ k, isUtf8 n.1 = true := fun k _ hk =>
    @Os.forall_view Daemon.hiddenTree (fun k _ => ∀ name ∈ k, isUtf8 name.1 = true) (by decide +kernel) k _ hk
  have hwalk : Walkable Daemon.walkEnv.reads Daemon.hiddenTree [] Daemon.walkEnv.depth :=
    { readable := Os.readable_of_privileged rfl []
      shallow := Daemon.shallow_of_preorder (by decide +kernel)
      short := fun k mode content hk =>
        @Os.forall_view Daemon.hiddenTree (fun _ obj => ∀ size ∈ obj.fileSize, size < 4) (by decide +kernel) k _ hk _ rfl }
  obtain ⟨hmatch, hlocal, hremote⟩ := @transfer_states_match_trees Daemon.walkEnv (.documented [] []) true
    Function.injective_id Daemon.hiddenTree Daemon.hiddenTree (.ofStr (str "/")) (.ofStr (str "/")) [] [] (.inr 0o755)
    (.inr 0o755) (by decide +kernel) hnames (by decide) (by decide +kernel) hnames
  obtain ⟨state, t, hrun⟩ := hlocal hwalk
  obtain ⟨found, t', hrun'⟩ := hremote
    { walkable := hwalk
      statRequest := by decide +kernel
      stat := by decide +kernel
      listRequest := by decide +kernel
      list := fun entries hentries => by
        have htree : Daemon.hiddenTree.tree.sub [] = some Daemon.hiddenTree.tree := DirTree.sub_nil _
        rw [Daemon.eq_listingOf htree hentries]
        decide +kernel }
  obtain ⟨state', rfl, hiff, hiff'⟩ := hmatch state t found t' hrun hrun'
  exact ⟨state, t, state', t', hrun, hrun', hiff, hiff'⟩

end Client

end Rsdb
