/-
# Where a push lands, as the client and as the daemon see it

The client asks for an `fs.stat` of the destination and computes the root paths
from the answer (`resolve_remote_batch_roots`); the daemon computes them when
the push arrives (`resolve_batch_destination_roots`). The daemon's stat follows
a link at the end of the destination, the answer the client gets does not.

`roots_agree_iff` says in exactly which states the two come to the same: always
where the destination is not a symbolic link, and where it is one, only where
taking it for something that is not a directory makes no difference.
-/
import Rsdb.Daemon.FsStat
import Rsdb.Os.Resolve

namespace Rsdb

namespace Client

/-- `resolve_remote_batch_roots`, by how the names are checked, how the stat is asked
for, and how a destination that is no directory is refused. -/
def resolveRemotely {C : Type} {A : C → Type} {ε : Type} (unique : Prog C A ε Unit) (fsStat : Prog C A ε AgentFsStat)
    (refused : Str → ε) (destination : Str) (roots : List TransferRoot) : Prog C A ε (List Path) := do
  unique
  let destinationStat ← fsStat
  let destinationPath := Path.ofStr destination
  let isDirectory : Bool := destinationStat.present && destinationStat.kind = some .directory
  match roots with
  | [root] =>
    pure [if isDirectory || endsWithSlash destination then root.under destinationPath else destinationPath]
  | roots =>
    if destinationStat.present && !isDirectory then
      .fail (refused (str "remote destination is not a directory: " ++ destination))
    else pure (roots.map (TransferRoot.under destinationPath))

/-- A request to the daemon; a failure comes back as its text. -/
def agentRequest {α : Type} (handler : Act α) : Act α := do
  match ← handler.attempt with
  | .ok a => pure a
  | .error err => Act.bail err.message

section

variable (sha256 : Bytes → Str) (fuel : ℕ) (mtimeUnixMs : Path → Option ℕ)

/-- The daemon's answer to a stat of the agent. -/
def remoteFsStat (path : Str) (hash : Option HashAlgorithm) : Act AgentFsStat :=
  agentRequest (Daemon.handleFsStat sha256 fuel mtimeUnixMs path hash)

/-- `resolve_remote_batch_roots`, of a daemon on this state. -/
def resolveRemoteBatchRoots (destination : Str) (roots : List TransferRoot) : Act (List Path) :=
  resolveRemotely (.ofExcept (ensureUniqueRootNames roots)) (remoteFsStat sha256 fuel mtimeUnixMs destination none)
    AnyhowError.bail destination roots

end

end Client

/-! ### What the two resolvers come to -/

/-- Two lists of root paths are equal, as `PathBuf`s are: by their components. -/
def SamePaths (a b : List Path) : Prop := List.Forall₂ (fun p q => p.abs = q.abs ∧ p.comps = q.comps) a b

/-- Both resolvers reject, or both give the same root paths. -/
def RootsAgree (a b : Except AnyhowError (List Path)) : Prop :=
  match a.toOption, b.toOption with
  | some a, some b => SamePaths a b
  | none, none => True
  | _, _ => False

theorem rootsAgree_of_eq {a b : Except AnyhowError (List Path)} (h : a.toOption = b.toOption) :
    RootsAgree a b := by
  rw [RootsAgree, h]
  cases b.toOption with
  | none => trivial
  | some ps => exact List.forall₂_same.mpr fun _ _ => ⟨rfl, rfl⟩

section

variable (sha256 : Bytes → Str) (fuel : ℕ) (mtimeUnixMs : Path → Option ℕ)

/-- The root paths for what a stat said: nothing there, a directory or not, or
an error other than that nothing is there. -/
def rootsFor (destination : Str) (roots : List TransferRoot) (seen : Except IoErrorKind Obj) :
    Except AnyhowError (List Path) :=
  match seen with
  | .ok obj =>
    rootPathsAt (str "remote destination is not a directory: " ++ destination) (Path.ofStr destination)
      (endsWithSlash destination) (some obj.isDir) roots
  | .error .notFound =>
    rootPathsAt (str "remote destination is not a directory: " ++ destination) (Path.ofStr destination)
      (endsWithSlash destination) none roots
  | .error e =>
    .error ((AnyhowError.ofIo e.toError).context
      (str "failed to stat remote destination " ++ (Path.ofStr destination).display))

theorem run_resolveBatchDestinationRoots {destination : Str} {roots : List TransferRoot} (hdest : destination ≠ [])
    (hne : roots ≠ []) (hdistinct : (roots.map TransferRoot.sourceName).Nodup) (os : Os) :
    (Prog.run Os.step (Daemon.resolveBatchDestinationRoots destination roots) os).1 =
      rootsFor destination roots ((os.lookup true (Path.ofStr destination)).map Prod.snd) := by
  have hdup : duplicateRoot [] roots = none := duplicateRoot_eq_none hdistinct (by simp)
  simp only [Daemon.resolveBatchDestinationRoots, hne, Daemon.ensureUniqueRootNames, hdup, hdest, ↓reduceIte,
    Prog.ofExcept_ok, Prog.pure_bind, resolveRoots, Act.stat, Prog.ask_bind, Prog.run_call, Os.step_stat]
  cases h : os.lookup true (Path.ofStr destination) with
  | ok r => simp [Except.map, Except.mapError, rootsFor]
  | error e =>
    cases e <;> simp [Except.map, Except.mapError, rootsFor, IoErrorKind.toError]

theorem run_remoteFsStat {destination : Str} (hdest : destination ≠ []) (os : Os) :
    Prog.run Os.step (Client.remoteFsStat sha256 fuel mtimeUnixMs destination none) os =
      (match os.lookup false (Path.ofStr destination) with
        | .ok r => .ok ⟨(Path.ofStr destination).display, true, some r.2.kind, some (os.size r.1 r.2),
            some (r.2.mode &&& 0o7777), mtimeUnixMs (Path.ofStr destination), none⟩
        | .error .notFound => .ok ⟨(Path.ofStr destination).display, false, none, none, none, none, none⟩
        | .error _ => .error (.bail (str "failed to stat " ++ (Path.ofStr destination).display)), os) := by
  simp only [Client.remoteFsStat, Client.agentRequest, Prog.run_bind, Prog.run_attempt, Daemon.handleFsStat,
    Daemon.validateFsPath, hdest, ↓reduceIte, Prog.ofExcept_ok, Prog.run_pure, Daemon.blockingFsStat, Act.lstat,
    Prog.ask_bind, Prog.run_call, Os.step_lstat]
  cases h : os.lookup false (Path.ofStr destination) with
  | ok r => simp [Except.map, Except.mapError, Daemon.buildFsStat, Daemon.hashOf, Os.metadata]
  | error e => cases e <;> simp [Except.map, Except.mapError, IoErrorKind.toError, Act.bail, AnyhowError.context]

theorem run_resolveRemoteBatchRoots {destination : Str} {roots : List TransferRoot} (hdest : destination ≠ [])
    (hdistinct : (roots.map TransferRoot.sourceName).Nodup) (os : Os) :
    (Prog.run Os.step (Client.resolveRemoteBatchRoots sha256 fuel mtimeUnixMs destination roots) os).1.toOption =
      (rootsFor destination roots ((os.lookup false (Path.ofStr destination)).map Prod.snd)).toOption := by
  have hdup : duplicateRoot [] roots = none := duplicateRoot_eq_none hdistinct (by simp)
  simp only [Client.resolveRemoteBatchRoots, Client.resolveRemotely, Client.ensureUniqueRootNames, hdup, Prog.ofExcept_ok, Prog.pure_bind,
    Prog.run_bind, run_remoteFsStat sha256 fuel mtimeUnixMs hdest]
  cases h : os.lookup false (Path.ofStr destination) with
  | ok r =>
    rcases roots with _ | ⟨root, _ | ⟨root', roots⟩⟩ <;>
      by_cases hd : r.2.kind = .directory <;>
        simp [rootsFor, rootPathsAt, Obj.isDir, Except.map, Except.toOption, hd]
  | error e =>
    cases e <;> simp only [Except.map, rootsFor, Except.toOption]
    rcases roots with _ | ⟨root, _ | ⟨root', roots⟩⟩ <;> simp [rootPathsAt]

/-! ### When they agree -/

/-- Where the destination is a symbolic link: one root is put at the destination
by both unless the link leads to a directory or cannot be followed, and several
roots are refused by both unless the link leads to a directory or nowhere. -/
def LinkHarmless (os : Os) (destination : Path) : List TransferRoot → Prop
  | [root] =>
    match os.lookup true destination with
    | .ok (_, obj) =>
      obj.isDir = true → (root.under destination).abs = destination.abs ∧
        (root.under destination).comps = destination.comps
    | .error e => e = .notFound
  | _ =>
    match os.lookup true destination with
    | .ok (_, obj) => obj.isDir = false
    | .error e => e ≠ .notFound

/-- **The client and the daemon agree on where a push lands exactly when** the
destination is not a symbolic link, or is one that makes no difference. -/
theorem roots_agree_iff (os : Os) (destination : Str) (roots : List TransferRoot) (hne : roots ≠ [])
    (hdistinct : (roots.map TransferRoot.sourceName).Nodup) :
    RootsAgree (Prog.run Os.step (Client.resolveRemoteBatchRoots sha256 fuel mtimeUnixMs destination roots) os).1
        (Prog.run Os.step (Daemon.resolveBatchDestinationRoots destination roots) os).1 ↔
      ∀ loc target, os.lookup false (Path.ofStr destination) = .ok (loc, .inl (.symlink target)) →
        LinkHarmless os (Path.ofStr destination) roots := by
  by_cases hdest : destination = []
  · have hnone : os.lookup false (Path.ofStr []) = .error .notFound := rfl
    have hdup : duplicateRoot [] roots = none := duplicateRoot_eq_none hdistinct (by simp)
    subst hdest
    simp only [hnone, reduceCtorEq, false_imp_iff, implies_true, iff_true]
    refine rootsAgree_of_eq ?_
    simp [Client.resolveRemoteBatchRoots, Client.resolveRemotely, Client.ensureUniqueRootNames, hdup, Prog.run_bind, Client.remoteFsStat,
      Client.agentRequest, Prog.run_attempt, Daemon.handleFsStat, Daemon.validateFsPath, Act.bail,
      Daemon.resolveBatchDestinationRoots, hne, Daemon.ensureUniqueRootNames, Except.toOption]
  · rw [RootsAgree, run_resolveRemoteBatchRoots sha256 fuel mtimeUnixMs hdest hdistinct,
      run_resolveBatchDestinationRoots hdest hne hdistinct]
    by_cases hlink : ∃ loc target, os.lookup false (Path.ofStr destination) = .ok (loc, .inl (.symlink target))
    · obtain ⟨loc, target, hlstat⟩ := hlink
      have hslash : endsWithSlash destination = false := Os.slash_of_lookup_leaf hlstat
      have hharmless : (∀ loc target, os.lookup false (Path.ofStr destination) = .ok (loc, .inl (.symlink target)) →
          LinkHarmless os (Path.ofStr destination) roots) ↔ LinkHarmless os (Path.ofStr destination) roots :=
        ⟨fun h => h loc target hlstat, fun h _ _ _ => h⟩
      rw [hharmless, hlstat]
      have hlinkMeta : Obj.isDir (.inl (.symlink target)) = false := rfl
      cases hstat : os.lookup true (Path.ofStr destination) with
      | ok r =>
        rcases roots with _ | ⟨root, _ | ⟨root', roots⟩⟩
        · exact absurd rfl hne
        · cases hd : r.2.isDir <;>
            simp [Except.map, rootsFor, rootPathsAt, hlinkMeta, hslash, hd, LinkHarmless, hstat, SamePaths,
              Except.toOption, eq_comm]
        · cases hd : r.2.isDir <;>
            simp [Except.map, rootsFor, rootPathsAt, hlinkMeta, hd, LinkHarmless, hstat, Except.toOption]
      | error e =>
        rcases roots with _ | ⟨root, _ | ⟨root', roots⟩⟩
        · exact absurd rfl hne
        · cases e <;>
            simp [Except.map, rootsFor, rootPathsAt, hlinkMeta, hslash, LinkHarmless, hstat, SamePaths,
              Except.toOption]
        · cases e <;>
            simp [Except.map, rootsFor, rootPathsAt, hlinkMeta, LinkHarmless, hstat, Except.toOption]
    · have hsame : os.lookup true (Path.ofStr destination) = os.lookup false (Path.ofStr destination) :=
        Os.lookup_follow fun loc t h => hlink ⟨loc, t, h⟩
      have hagree := rootsAgree_of_eq (rfl : (rootsFor destination roots
        ((os.lookup false (Path.ofStr destination)).map Prod.snd)).toOption = _)
      rw [hsame]
      exact ⟨fun _ loc t h => absurd ⟨loc, t, h⟩ hlink, fun _ => hagree⟩

end

/-- The name of a link. -/
def linkName : Name := ⟨str "l", by decide⟩

/-- The name of a directory. -/
def dirName : Name := ⟨str "d", by decide⟩

/-- A directory `/d`, and a link `/l` to it. -/
def linkedOs : Os := (Os.fresh.withDir [dirName] 0o755).withLeaf [linkName] (.symlink (Path.ofStr (str "/d")))

/-- At `/d` they agree. -/
theorem roots_agree_at_directory :
    RootsAgree (Prog.run Os.step (Client.resolveRemoteBatchRoots (fun _ => []) 0 (fun _ => none) (str "/d")
        [⟨str "a", .file, 420⟩]) linkedOs).1
      (Prog.run Os.step (Daemon.resolveBatchDestinationRoots (str "/d") [⟨str "a", .file, 420⟩]) linkedOs).1 := by
  refine (roots_agree_iff (fun _ => []) 0 (fun _ => none) linkedOs (str "/d") [⟨str "a", .file, 420⟩] (by decide)
    (by decide)).mpr ?_
  intro loc target h
  have hdir : linkedOs.lookup false (Path.ofStr (str "/d")) = .ok ([dirName], .inr 0o755) := by decide +kernel
  rw [hdir] at h
  cases h

/-- At `/l` the client takes the link for something that is not a directory. -/
theorem roots_disagree_at_link :
    ¬ RootsAgree (Prog.run Os.step (Client.resolveRemoteBatchRoots (fun _ => []) 0 (fun _ => none) (str "/l")
        [⟨str "a", .file, 420⟩]) linkedOs).1
      (Prog.run Os.step (Daemon.resolveBatchDestinationRoots (str "/l") [⟨str "a", .file, 420⟩]) linkedOs).1 := by
  have hclient : (Prog.run Os.step (Client.resolveRemoteBatchRoots (fun _ => []) 0 (fun _ => none) (str "/l")
      [⟨str "a", .file, 420⟩]) linkedOs).1.toOption = some [Path.ofStr (str "/l")] := by decide +kernel
  have hdaemon : (Prog.run Os.step (Daemon.resolveBatchDestinationRoots (str "/l") [⟨str "a", .file, 420⟩])
      linkedOs).1.toOption = some [Path.ofStr (str "/l/a")] := by decide +kernel
  rw [RootsAgree, hclient, hdaemon]
  intro h
  cases h with | cons h _ => exact absurd h.2 (by decide)

end Rsdb
