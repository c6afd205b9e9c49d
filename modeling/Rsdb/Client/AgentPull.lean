/-
# `rsdb agent transfer pull`

`run_agent_transfer_pull` pulls, and with `--verify` compares what is then on the
client's side with the other: by size with the manifest that was pulled, by SHA-256 with
the trees the sources name on the other side. Where the roots are it resolves again,
after the pull.
-/
import Rsdb.Client.AgentVerify

namespace Rsdb

namespace Client

namespace Agent

open Prog (run Exec Stop Reaches All wp_iff_run exec_bind_returned exec_pure_returned exec_ask_returned)
open Os (SameTree)

/-! ### The command -/

/-- The arguments of `run_agent_transfer_pull`. -/
structure PullArgs where
  target : Str
  sourceSpecs : List Str
  destination : Str
  verify : Option TransferVerifyMode

/-- What a failure of the pull says of it. -/
def PullArgs.details (asked : PullArgs) : List (Str × Detail) :=
  [(str "sources", .texts asked.sourceSpecs), (str "destination", .text asked.destination),
    (str "verify", asked.verify.elim .null fun mode => .text (transferVerifyName mode))]

/-- The details of a failed verification as a whole. -/
def PullArgs.verification (asked : PullArgs) (mode : TransferVerifyMode) : List (Str × Detail) :=
  [(str "sources", .texts asked.sourceSpecs), (str "destination", .text asked.destination),
    (str "verification", .text (transferVerifyName mode))]

/-- The details of a failed verification of one root. -/
def rootVerification (remoteRoot localRoot : Path) : List (Str × Detail) :=
  [(str "source", .text (pathText remoteRoot)), (str "destination", .text (pathText localRoot)),
    (str "verification", .text (transferVerifyName .sha256))]

/-- The kind of an entry as a listing names it. -/
def transferEntryKindToFsKind : TransferEntryKind → FsEntryKind
  | .file => .file
  | .directory => .directory

/-- The state an entry of the manifest stands for. -/
def stateOfEntry (entry : TransferEntry) : TransferPathState :=
  ⟨transferEntryKindToFsKind entry.kind, if entry.kind = .file then some entry.size else none, none⟩

/-- The states of one root's entries, by their paths below it. -/
def expectedTransferStateForRoot (entries : List TransferEntry) (rootIndex : ℕ) : TransferState :=
  (entries.filter fun entry => entry.rootIndex = rootIndex).foldl
    (fun state entry => state.insert entry.relativePath (stateOfEntry entry)) ∅

section

variable (codec : Codec) (asked : PullArgs)

/-- The paths that will be pulled, source by source. -/
def resolveSha256PullSources (target : Str) : List Str → AgentProg (List Path)
  | [] => .pure []
  | source :: sources => do
    let stat ← remoteFsStatRequest codec target source none
    if stat.present = false ∧ hasGlobPattern source = true then
      .fail (invalidRequestFailure (str "sha256 verification requires literal remote sources; wildcard source `" ++ source ++
        str "` is ambiguous") (some target) [(str "source", .text source)])
    else do
      let concrete ← resolveSha256PullSources target sources
      .pure (Path.ofStr source :: concrete)

/-- The state of a local root, or a failed verification. -/
def localStateAt (failed : Str → AgentCommandFailure) (root : Path) (includeHash : Bool) : AgentProg TransferState := do
  let state ← Prog.ask (AgentCall.localState root includeHash)
  .ofExcept (state.mapError fun err => failed err.message)

/-- The local roots from an index on; the index goes round as a `u32`. -/
def verifyLocalRoots (failed : Str → AgentCommandFailure) (entries : List TransferEntry) : ℕ → List Path → AgentProg Unit
  | _, [] => .pure ()
  | index, localRoot :: localRoots => do
    let actual ← localStateAt failed localRoot false
    if transferStatesMatch (expectedTransferStateForRoot entries (index % 2 ^ 32)) actual then
      verifyLocalRoots failed entries (index + 1) localRoots
    else .fail (failed (str "local destination does not match pulled manifest: " ++ pathText localRoot))

/-- `failed` is what the caller makes of an error. -/
def verifyLocalPullAgainstManifest (failed : Str → AgentCommandFailure) (destination : Str) (roots : List TransferRoot)
    (entries : List TransferEntry) : AgentProg Unit := do
  let resolved ← Prog.ask (AgentCall.localRoots destination roots)
  let localRoots ← .ofExcept (resolved.mapError fun err => failed err.message)
  verifyLocalRoots failed entries 0 localRoots

/-- The remote roots and the local ones, pair by pair. -/
def verifyAgainstRemote : List (Path × Path) → AgentProg Unit
  | [] => .pure ()
  | (remoteRoot, localRoot) :: pairs => do
    let failed : Str → AgentCommandFailure := fun message =>
      transferVerificationFailure asked.target message (rootVerification remoteRoot localRoot)
    match ← collectRemoteTransferState codec asked.target remoteRoot true with
    | none => .fail (failed (str "remote source disappeared during verification: " ++ pathText remoteRoot))
    | some expected => do
      let actual ← localStateAt failed localRoot true
      if transferStatesMatch expected actual then verifyAgainstRemote pairs
      else .fail (failed (str "local destination does not match remote source: " ++ pathText remoteRoot))

/-- The remote roots a verification by SHA-256 is going to need. -/
def remoteVerifyRoots : AgentProg (Option (List Path)) :=
  if asked.verify = some .sha256 then do
    let remoteRoots ← resolveSha256PullSources codec asked.target asked.sourceSpecs
    .pure (some remoteRoots)
  else .pure none

/-- `--verify`, if it is given. -/
def verifyPull (remoteRoots : Option (List Path)) (summary : PullSummary) : AgentProg Unit :=
  match asked.verify with
  | none => .pure ()
  | some .size =>
    verifyLocalPullAgainstManifest
      (fun message => transferVerificationFailure asked.target message (asked.verification .size)) asked.destination
      summary.roots summary.entries
  | some .sha256 =>
    match remoteRoots with
    | none => .fail (internalAgentFailure (str "missing remote verify roots"))
    | some remoteRoots => do
      let resolved ← Prog.ask (AgentCall.localRoots asked.destination summary.roots)
      let localRoots ← .ofExcept (resolved.mapError fun err => internalAgentFailure err.message)
      if remoteRoots.length ≠ localRoots.length then
        .fail (transferVerificationFailure asked.target (str "pull root count did not match requested sources")
          (asked.verification .sha256))
      else verifyAgainstRemote codec asked (remoteRoots.zip localRoots)

/-- What is reported. -/
def PullArgs.report (summary : PullSummary) : PullSummary :=
  { summary with verification := asked.verify.map transferVerifyName, verified := asked.verify.isSome }

/-- `agent transfer pull`: what is to be verified is looked at, the batch is pulled, and the
copies are compared. -/
def runAgentTransferPull : AgentProg PullSummary := do
  let remoteRoots ← remoteVerifyRoots codec asked
  let pulled ← Prog.ask (AgentCall.pull asked.sourceSpecs asked.destination)
  let summary ← .ofExcept (pulled.mapError fun err =>
    mapOperationError (str "transfer.pull") (some asked.target) err asked.details)
  verifyPull codec asked remoteRoots summary
  .pure (asked.report summary)

end

/-! ### Serving a pull -/

/-- What the two sides have beside the client's filesystem, which a pull changes: the
environment of the handlers and of the client's own walks, the texts of the frames, what
a pattern matches on the other side, and its filesystem. -/
structure PullSides where
  env : Daemon.FsEnv
  codec : Codec
  glob : Str → Except AnyhowError (List Path)
  remote : Os

/-- The other side, as it serves requests. -/
def PullSides.daemon (sides : PullSides) : Sides := ⟨sides.env, sides.codec, sides.glob, sides.remote⟩

/-- Each file that is pulled is opened and read to its end. -/
def PullSides.Steady (sides : PullSides) (specs : List Str) (runs : ℕ → ReadRun) : Prop :=
  ∀ sources, Daemon.expandRemoteSources sides.glob sides.remote specs = .ok sources →
    ∀ i content, ((manifestItems sources).filterMap Item.content?)[i]? = some content → (runs i).Gives content

section

variable (sides : PullSides)

/-- A call that is answered takes the client's side from one state to another; the other
side is as it was. -/
def ServesPull : (c : AgentCall) → c.Answer → Os → Os → Prop
  | .localState root includeHash, answer, s, t => SameTree s t ∧ ∀ state, answer = .ok state →
      (run Os.step (collectLocalTransferState sides.env includeHash root) s).1 = .ok state
  | .localRoots destination roots, answer, s, t => SameTree s t ∧ ∀ paths, answer = .ok paths →
      (run Os.step (resolveLocalBatchRoots destination roots) s).1 = .ok paths
  | .request request, answer, s, t => SameTree s t ∧ ∃ r r', SameTree sides.remote r ∧
      Serves sides.daemon (.request request) answer r r'
  | .pull specs destination, .ok summary, s, t => ∃ runs, sides.Steady specs runs ∧
      pullSession sides.codec sides.glob sides.remote runs specs destination s = (.ok summary, t)
  | .pull specs destination, .error _, s, t => ∃ runs, Reaches Os.step (executePull sides.codec specs destination
      (Daemon.servePull sides.codec sides.glob sides.remote runs)) s t
  | .clock, _, s, t => SameTree s t
  | .buildManifest _, _, _, _ | .push _ _, _, _, _ => False

/-- The calls in turn. -/
inductive ServedPull : AgentTrace → Os → Os → Prop where
  | nil {s t : Os} (h : SameTree s t) : ServedPull [] s t
  | cons {c : AgentCall} {r : c.Answer} {rest : AgentTrace} {s s' t t' : Os} (h : SameTree s s')
      (hserves : ServesPull sides c r s' t) (hrest : ServedPull rest t t') : ServedPull (⟨c, r⟩ :: rest) s t'

end

section

variable {sides : PullSides} {s t t' : Os}

theorem ServedPull.append {b : AgentTrace} : ∀ {a : AgentTrace} {s t' : Os}, ServedPull sides (a ++ b) s t' →
    ∃ t, ServedPull sides a s t ∧ ServedPull sides b t t'
  | [], s, _, h => ⟨s, .nil (SameTree.refl s), h⟩
  | ⟨_, _⟩ :: _, _, _, .cons h hserves hrest => by
    obtain ⟨t, ha, hb⟩ := hrest.append
    exact ⟨t, .cons h hserves ha, hb⟩

theorem ServedPull.single {c : AgentCall} {r : c.Answer} (h : ServedPull sides [⟨c, r⟩] s t) :
    ∃ s' t', SameTree s s' ∧ ServesPull sides c r s' t' ∧ SameTree t' t := by
  cases h with
  | cons hsame hserves hrest =>
    cases hrest with
    | nil hlast => exact ⟨_, _, hsame, hserves, hlast⟩

/-- All but the pull itself leaves the client's side as it is. -/
def AgentCall.pulls : AgentCall → Bool
  | pull _ _ => true
  | _ => false

theorem sameTree_of_servesPull {c : AgentCall} {r : c.Answer} (hlooks : c.pulls = false) (h : ServesPull sides c r s t) :
    SameTree s t := by
  cases c with
  | localState | localRoots | request => exact h.1
  | clock => exact h
  | buildManifest | push => exact h.elim
  | pull => cases hlooks

theorem ServedPull.sameTree : ∀ {trace : AgentTrace} {s t : Os}, ServedPull sides trace s t →
    (∀ asked ∈ trace, asked.1.pulls = false) → SameTree s t
  | [], _, _, .nil h, _ => h
  | _ :: _, _, _, .cons h hserves hrest, hlooks => by
    obtain ⟨hfirst, hothers⟩ := List.forall_mem_cons.mp hlooks
    exact (h.trans (sameTree_of_servesPull hfirst hserves)).trans (hrest.sameTree hothers)

/-- Looks at the other side are served there as those of a push are. -/
theorem ServedPull.daemon : ∀ {trace : AgentTrace} {s t : Os}, ServedPull sides trace s t →
    (∀ asked ∈ trace, (∃ request, asked.1 = .request request) ∧ asked.1.changes = false) →
      ∀ r, SameTree sides.remote r → ∃ r', Served sides.daemon trace r r'
  | [], _, _, _, _, r, _ => ⟨r, .nil (SameTree.refl r)⟩
  | ⟨_, _⟩ :: _, _, _, .cons h hserves hrest, hlooks, r, hr => by
    obtain ⟨⟨⟨request, rfl⟩, hlook⟩, hothers⟩ := List.forall_mem_cons.mp hlooks
    obtain ⟨-, r₁, r₂, hr₁, hanswered⟩ := hserves
    obtain ⟨r', hserved⟩ := hrest.daemon hothers r₂ (hr₁.trans (sameTree_of_serves hlook hanswered))
    exact ⟨r', .cons (hr.symm.trans hr₁) hanswered hserved⟩

end

/-! ### What was compared -/

/-- A state collected of a local root matches what is expected. -/
def LocalMatches (sides : PullSides) (includeHash : Bool) (s : Os) (expected : TransferState) (localRoot : Path) : Prop :=
  ∃ s' actual, SameTree s s' ∧
    (run Os.step (collectLocalTransferState sides.env includeHash localRoot) s').1 = .ok actual ∧
      transferStatesMatch expected actual = true

/-- What a place has there, by the states. -/
def StateAt (sides : PullSides) (includeHash : Bool) (s : Os) (l : Loc) (key : Str) (state : TransferPathState) : Prop :=
  ∃ k obj, key = relativeOf k ∧ s.view (l ++ k) = some obj ∧
    state.matches (stateOf sides.env.sha256 includeHash obj) = true

section

variable {sides : PullSides} {asked : PullArgs} {s s' t : Os} {includeHash : Bool} {expected : TransferState}
  {localRoot : Path} {trace : AgentTrace} {failed : Str → AgentCommandFailure}

theorem lookup_of_collectLocalTransferState {env : Daemon.FsEnv} {state : TransferState}
    (h : (run Os.step (collectLocalTransferState env includeHash localRoot) s).1 = .ok state) :
    ∃ l obj, s.lookup false localRoot = .ok (l, obj) := by
  cases hlookup : s.lookup false localRoot with
  | ok found => exact ⟨found.1, found.2, rfl⟩
  | error e =>
    rw [collectLocalTransferState, Act.lstat, Prog.ask_bind, Prog.run_call, Os.step_lstat, hlookup] at h
    cases h

theorem LocalMatches.sameTree (h : LocalMatches sides includeHash s' expected localRoot) (hsame : SameTree s s') :
    LocalMatches sides includeHash s expected localRoot := by
  obtain ⟨t, actual, hsame', hactual⟩ := h
  exact ⟨t, actual, hsame.trans hsame', hactual⟩

/-- What is expected is below the local root, where the names are texts. -/
theorem LocalMatches.found (h : LocalMatches sides includeHash s expected localRoot) :
    ∃ l top, s.lookup false localRoot = .ok (l, top) ∧
      ((∀ k x, s.view (l ++ k) = some x → ∀ n ∈ k, isUtf8 n.1 = true) →
        ∀ key state, expected.lookup key = some state → StateAt sides includeHash s l key state) := by
  obtain ⟨s', actual, hsame, hactual, hmatch⟩ := h
  obtain ⟨l, top, hp⟩ := lookup_of_collectLocalTransferState hactual
  refine ⟨l, top, (hsame.lookup _ _).symm.trans hp, fun hnames key state hstate => ?_⟩
  have hnames' : ∀ k x, s'.view (l ++ k) = some x → ∀ n ∈ k, isUtf8 n.1 = true :=
    fun k x hk => hnames k x ((hsame.view _).symm.trans hk)
  have hlocal := @wp_collectLocalTransferState sides.env includeHash False _ _ _ _ hp hnames' False.elim
  have hrecorded := (wp_iff_run.mp hlocal).1 actual _ (Prod.ext hactual rfl)
  obtain ⟨state', hstate', hsameState⟩ := (transferStatesMatch_iff _ _).mp hmatch key state hstate
  obtain ⟨k, obj, -, hk, hkey, rfl⟩ := (hrecorded _ _).mp hstate'
  exact ⟨k, obj, hkey, (hsame.view _).symm.trans hk, hsameState⟩

theorem localMatches_of_localStateAt {actual : TransferState}
    (h : Exec (localStateAt failed localRoot includeHash) trace (.returned actual)) (hserved : ServedPull sides trace s t)
    (hmatch : transferStatesMatch expected actual = true) :
    LocalMatches sides includeHash s expected localRoot ∧ SameTree s t := by
  unfold localStateAt at h
  obtain ⟨answer, quiet, rfl, hanswer⟩ := exec_ask_returned h
  cases answer with
  | error err => cases hanswer
  | ok state =>
    obtain ⟨rfl, rfl⟩ := exec_pure_returned hanswer
    obtain ⟨s', t', hsame, ⟨hlooked, hstate⟩, hlast⟩ := hserved.single
    exact ⟨⟨s', actual, hsame, hstate actual rfl, hmatch⟩, (hsame.trans hlooked).trans hlast⟩

/-- Local roots that were verified have what the manifest lists for them. -/
theorem localMatches_of_verifyLocalRoots {entries : List TransferEntry} : ∀ {localRoots : List Path} {index : ℕ}
    {trace : AgentTrace} {s : Os}, Exec (verifyLocalRoots failed entries index localRoots) trace (.returned ()) →
      ServedPull sides trace s t → ∀ (i : ℕ) (localRoot : Path), localRoots[i]? = some localRoot →
        LocalMatches sides false s (expectedTransferStateForRoot entries ((index + i) % 2 ^ 32)) localRoot
  | [], _, _, _, _, _, i, localRoot, hi => by cases hi
  | localRoot :: localRoots, index, trace, s, h, hserved, i, localRoot', hi => by
    obtain ⟨actual, first, rest, rfl, hfirst, hrest⟩ := exec_bind_returned h
    obtain ⟨s₁, hserved₁, hserved₂⟩ := hserved.append
    split at hrest
    · rename_i hmatch
      obtain ⟨hhere, hlooked⟩ := localMatches_of_localStateAt hfirst hserved₁ hmatch
      cases i with
      | zero =>
        obtain rfl := Option.some.inj hi
        exact hhere
      | succ i =>
        have hother := localMatches_of_verifyLocalRoots hrest hserved₂ i localRoot' hi
        rw [Nat.add_right_comm, Nat.add_assoc] at hother
        exact hother.sameTree hlooked
    · cases hrest

/-- Local roots that were verified have what was found on the other side. -/
theorem localMatches_of_verifyAgainstRemote : ∀ {pairs : List (Path × Path)} {trace : AgentTrace} {s : Os},
    Exec (verifyAgainstRemote sides.codec asked pairs) trace (.returned ()) → ServedPull sides trace s t →
      ∀ pair ∈ pairs, ∃ expected looked r, LocalMatches sides true s expected pair.2 ∧
        Exec (collectRemoteTransferState sides.codec asked.target pair.1 true) looked (.returned (some expected)) ∧
          Served sides.daemon looked sides.remote r
  | [], _, _, _, _, pair, hpair => absurd hpair List.not_mem_nil
  | (remoteRoot, localRoot) :: pairs, trace, s, h, hserved, pair, hpair => by
    obtain ⟨found, looked, rest, rfl, hlooked, hrest⟩ := exec_bind_returned h
    obtain ⟨s₁, hserved₁, hserved₂⟩ := hserved.append
    cases found with
    | none => cases hrest
    | some expected =>
      obtain ⟨actual, first, rest', rfl, hfirst, hlast⟩ := exec_bind_returned hrest
      obtain ⟨s₂, hserved₃, hserved₄⟩ := hserved₂.append
      split at hlast
      · rename_i hmatch
        have hasks := hlooked.forall_mem (P := fun c => (∃ request, c = .request request) ∧ c.changes = false)
          (all_collectRemoteTransferState (fun _ _ => ⟨⟨_, rfl⟩, rfl⟩) fun _ _ => ⟨⟨_, rfl⟩, rfl⟩)
        have hsame : SameTree s s₁ := hserved₁.sameTree fun asked hasked => by
          obtain ⟨⟨request, heq⟩, -⟩ := hasks asked hasked
          rw [heq]
          rfl
        obtain ⟨hhere, hsame'⟩ := localMatches_of_localStateAt hfirst hserved₃ hmatch
        rcases List.mem_cons.mp hpair with rfl | hpair
        · obtain ⟨r, hdaemon⟩ := hserved₁.daemon hasks sides.remote (SameTree.refl _)
          exact ⟨expected, looked, r, hhere.sameTree hsame, hlooked, hdaemon⟩
        · obtain ⟨expected', looked', r, hmatches, hfound⟩ := localMatches_of_verifyAgainstRemote hlast hserved₄ pair hpair
          exact ⟨expected', looked', r, hmatches.sameTree (hsame.trans hsame'), hfound⟩
      · cases hlast

end

/-! ### What the manifest lists -/

theorem lookup_foldl_stateOfEntry : ∀ {entries : List TransferEntry} {before : TransferState},
    (entries.map TransferEntry.relativePath).Nodup → (∀ entry ∈ entries, before.lookup entry.relativePath = none) →
      ∀ key state, (entries.foldl (fun state entry => state.insert entry.relativePath (stateOfEntry entry)) before).lookup key =
        some state ↔ before.lookup key = some state ∨ ∃ entry ∈ entries, key = entry.relativePath ∧ state = stateOfEntry entry
  | [], before, _, _, key, state => by simp
  | entry :: entries, before, hnodup, hnone, key, state => by
    obtain ⟨hfirst, hothers⟩ := List.nodup_cons.mp hnodup
    obtain ⟨hnoneFirst, hnoneOthers⟩ := List.forall_mem_cons.mp hnone
    have hbefore : ∀ entry' ∈ entries, (before.insert entry.relativePath (stateOfEntry entry)).lookup entry'.relativePath = none := by
      intro entry' hentry'
      have hne : entry'.relativePath ≠ entry.relativePath := fun heq => hfirst (heq ▸ List.mem_map_of_mem hentry')
      rw [AList.lookup_insert_ne hne]
      exact hnoneOthers entry' hentry'
    rw [List.foldl_cons, lookup_foldl_stateOfEntry hothers hbefore]
    by_cases hkey : key = entry.relativePath
    · subst hkey
      rw [AList.lookup_insert, hnoneFirst]
      constructor
      · rintro (h | ⟨entry', hentry', heq, -⟩)
        · exact Or.inr ⟨entry, List.mem_cons_self, rfl, (Option.some.inj h).symm⟩
        · exact absurd (heq ▸ List.mem_map_of_mem hentry') hfirst
      · rintro (h | ⟨entry', hentry', heq, hstate⟩)
        · cases h
        · rcases List.mem_cons.mp hentry' with rfl | hentry'
          · exact Or.inl (congrArg some hstate.symm)
          · exact absurd (heq ▸ List.mem_map_of_mem hentry') hfirst
    · rw [AList.lookup_insert_ne hkey]
      simp [hkey]

/-- What is expected is what a source has. -/
def Expects (sha256 : Bytes → Str) (includeHash : Bool) (source : Source) (expected : TransferState) : Prop :=
  ∀ key state, expected.lookup key = some state ↔
    ∃ k obj, source.tree.view k = some obj ∧ key = relativeOf k ∧ state = stateOf sha256 includeHash obj

section

variable {sources : List Source} {source : Source} {i : ℕ}

theorem stateOfEntry_entry (sha256 : Bytes → Str) {item : Item} (h : Obj.Listable item.obj) :
    stateOfEntry item.entry = stateOf sha256 false item.obj := by
  obtain ⟨rootIndex, path, names, obj⟩ := item
  match obj, h with
  | .inl (.file mode content), _ => rfl
  | .inr mode, _ => rfl

/-- What the manifest lists of a root is what its source has. -/
theorem expectedTransferStateForRoot_expects (sha256 : Bytes → Str) (hlegible : ∀ source ∈ sources, source.Legible)
    (hfew : sources.length ≤ 2 ^ 32) (hsource : sources[i]? = some source) :
    Expects sha256 false source (expectedTransferStateForRoot ((manifestItems sources).map Item.entry) i) := by
  intro key state
  set entries := ((manifestItems sources).map Item.entry).filter fun entry => entry.rootIndex = i with hentries
  have hitem : ∀ item ∈ manifestItems sources, item.entry.relativePath = relativeOf item.names := by
    intro item hitem
    obtain ⟨j, source', hsource', hmem⟩ := mem_itemsFrom.mp hitem
    have htext := (hlegible source' (List.mem_of_getElem? hsource')).text _ _ (Source.view_of_mem_items hmem).2
    rw [Item.entry, Item.entryAt, map_utf8Lossy htext, relativeOf]
  have hnodup : (entries.map TransferEntry.relativePath).Nodup := by
    rw [hentries, List.filter_map, List.map_map]
    have hpairs := List.pairwise_map.mp (nodup_itemsFrom 0 sources)
    refine List.pairwise_map.mpr ((hpairs.filter _).imp_of_mem fun {a b} ha hb hne heq => hne ?_)
    obtain ⟨ha, hai⟩ := List.mem_filter.mp ha
    obtain ⟨hb, hbi⟩ := List.mem_filter.mp hb
    have hindex : a.rootIndex = b.rootIndex := by
      rw [← rootIndex_of_item hfew ha, ← rootIndex_of_item hfew hb]
      exact (of_decide_eq_true hai).trans (of_decide_eq_true hbi).symm
    have hnames : a.names = b.names := relativeOf_injective ((hitem a ha).symm.trans (heq.trans (hitem b hb)))
    rw [hindex, hnames]
  have hlookup := @lookup_foldl_stateOfEntry entries ∅ hnodup (fun _ _ => AList.lookup_empty _) key state
  rw [expectedTransferStateForRoot, hlookup, AList.lookup_empty, or_iff_right (by simp)]
  constructor
  · rintro ⟨entry, hentry, rfl, rfl⟩
    obtain ⟨hmem, hindex⟩ := List.mem_filter.mp hentry
    obtain ⟨item, hitem', rfl⟩ := List.mem_map.mp hmem
    obtain ⟨j, source', hsource', hitems⟩ := mem_itemsFrom.mp hitem'
    obtain ⟨hroot, hview⟩ := Source.view_of_mem_items hitems
    have hj : j = i := by
      have hindex' : item.rootIndex = i := (rootIndex_of_item hfew hitem').symm.trans (of_decide_eq_true hindex)
      omega
    subst hj
    obtain rfl := Option.some.inj (hsource.symm.trans hsource')
    exact ⟨item.names, item.obj, hview, hitem item hitem',
      stateOfEntry_entry sha256 ((hlegible source (List.mem_of_getElem? hsource)).listable _ _ hview)⟩
  · rintro ⟨k, obj, hview, rfl, rfl⟩
    obtain ⟨item, hmem, hroot, rfl, rfl⟩ := Source.mem_items_of_view hview (0 + i)
    have hitem' : item ∈ manifestItems sources := mem_itemsFrom.mpr ⟨i, source, hsource, hmem⟩
    have hindex : item.entry.rootIndex = i := (rootIndex_of_item hfew hitem').trans (hroot.trans (Nat.zero_add i))
    refine ⟨item.entry, List.mem_filter.mpr ⟨List.mem_map_of_mem hitem', decide_eq_true hindex⟩,
      (hitem item hitem').symm, ?_⟩
    exact (stateOfEntry_entry sha256 ((hlegible source (List.mem_of_getElem? hsource)).listable _ _ hview)).symm

end

/-! ### A run that returns -/

section

variable {sides : PullSides} {asked : PullArgs} {s t : Os} {trace : AgentTrace}

theorem all_localStateAt {P : AgentCall → Prop} {failed : Str → AgentCommandFailure} {root : Path} {includeHash : Bool}
    (h : P (.localState root includeHash)) : All P (localStateAt failed root includeHash) :=
  Prog.all_bind.mpr ⟨⟨h, fun _ => trivial⟩, fun _ _ => all_ofExcept _⟩

theorem all_resolveSha256PullSources {P : AgentCall → Prop} {codec : Codec} {target : Str}
    (h : ∀ path hash, P (.request (.fsStat path hash))) : ∀ specs, All P (resolveSha256PullSources codec target specs)
  | [] => trivial
  | spec :: specs => by
    refine Prog.all_bind.mpr ⟨all_remoteFsStatRequest (h _ _), fun stat _ => ?_⟩
    split
    · trivial
    · exact Prog.all_bind.mpr ⟨all_resolveSha256PullSources h specs, fun _ _ => trivial⟩

theorem all_remoteVerifyRoots {P : AgentCall → Prop} {codec : Codec} (h : ∀ path hash, P (.request (.fsStat path hash))) :
    All P (remoteVerifyRoots codec asked) := by
  unfold remoteVerifyRoots
  split
  · exact Prog.all_bind.mpr ⟨all_resolveSha256PullSources h _, fun _ _ => trivial⟩
  · trivial

theorem all_verifyLocalRoots {P : AgentCall → Prop} {failed : Str → AgentCommandFailure} {entries : List TransferEntry}
    (h : ∀ root includeHash, P (.localState root includeHash)) : ∀ index localRoots,
      All P (verifyLocalRoots failed entries index localRoots)
  | _, [] => trivial
  | index, localRoot :: localRoots => by
    refine Prog.all_bind.mpr ⟨all_localStateAt (h _ _), fun actual _ => ?_⟩
    split
    · exact all_verifyLocalRoots h (index + 1) localRoots
    · trivial

theorem all_verifyAgainstRemote {P : AgentCall → Prop} {codec : Codec}
    (hrequest : ∀ request, P (.request request)) (h : ∀ root includeHash, P (.localState root includeHash)) :
    ∀ pairs, All P (verifyAgainstRemote codec asked pairs)
  | [] => trivial
  | (remoteRoot, localRoot) :: pairs => by
    refine Prog.all_bind.mpr ⟨all_collectRemoteTransferState (fun _ _ => hrequest _) fun _ _ => hrequest _, fun found _ => ?_⟩
    cases found with
    | none => trivial
    | some expected =>
      refine Prog.all_bind.mpr ⟨all_localStateAt (h _ _), fun actual _ => ?_⟩
      split
      · exact all_verifyAgainstRemote hrequest h pairs
      · trivial

/-- A verification pulls nothing. -/
theorem all_verifyPull {P : AgentCall → Prop} {codec : Codec} (hrequest : ∀ request, P (.request request))
    (hstate : ∀ root includeHash, P (.localState root includeHash))
    (hroots : ∀ destination roots, P (.localRoots destination roots)) (remoteRoots : Option (List Path))
    (summary : PullSummary) : All P (verifyPull codec asked remoteRoots summary) := by
  unfold verifyPull
  split
  · trivial
  · refine Prog.all_bind.mpr ⟨⟨hroots _ _, fun _ => trivial⟩, fun resolved _ => ?_⟩
    exact Prog.all_bind.mpr ⟨all_ofExcept _, fun localRoots _ => all_verifyLocalRoots hstate 0 localRoots⟩
  · split
    · trivial
    · refine Prog.all_bind.mpr ⟨⟨hroots _ _, fun _ => trivial⟩, fun resolved _ => ?_⟩
      refine Prog.all_bind.mpr ⟨all_ofExcept _, fun localRoots _ => ?_⟩
      split
      · trivial
      · exact all_verifyAgainstRemote hrequest hstate _

theorem eq_map_of_resolveSha256PullSources {codec : Codec} {target : Str} : ∀ {specs : List Str} {trace : AgentTrace}
    {concrete : List Path}, Exec (resolveSha256PullSources codec target specs) trace (.returned concrete) →
      concrete = specs.map Path.ofStr
  | [], _, _, h => (exec_pure_returned h).2
  | spec :: specs, _, _, h => by
    obtain ⟨stat, _, _, -, -, hrest⟩ := exec_bind_returned h
    split at hrest
    · cases hrest
    · obtain ⟨others, _, _, -, hothers, hlast⟩ := exec_bind_returned hrest
      rw [(exec_pure_returned hlast).2, eq_map_of_resolveSha256PullSources hothers, List.map_cons]

/-- What a run that returns has done: it has pulled, and then verified. -/
structure Pulled (sides : PullSides) (asked : PullArgs) (s s' t' t : Os) (remoteRoots : Option (List Path))
    (summary : PullSummary) (rest : AgentTrace) : Prop where
  before : SameTree s s'
  pulled : ServesPull sides (.pull asked.sourceSpecs asked.destination) (.ok summary) s' t'
  served : ServedPull sides rest t' t
  after : SameTree t' t
  verified : Exec (verifyPull sides.codec asked remoteRoots summary) rest (.returned ())
  resolved : asked.verify = some .sha256 → remoteRoots = some (asked.sourceSpecs.map Path.ofStr)

theorem pulled_of_returned {report : PullSummary} (h : Exec (runAgentTransferPull sides.codec asked) trace (.returned report))
    (hserved : ServedPull sides trace s t) : ∃ remoteRoots summary rest s' t', report = asked.report summary ∧
      Pulled sides asked s s' t' t remoteRoots summary rest := by
  obtain ⟨remoteRoots, looked, rest, rfl, hlooked, hrest⟩ := exec_bind_returned h
  obtain ⟨answer, rest', rfl, hanswered⟩ := exec_ask_returned hrest
  cases answer with
  | error err => cases hanswered
  | ok summary =>
    obtain ⟨summary', quiet, rest₀, rfl, hquiet, hgoes⟩ := exec_bind_returned hanswered
    obtain ⟨rfl, rfl⟩ := exec_pure_returned hquiet
    obtain ⟨u, verified, rest'', rfl, hverified, hlast⟩ := exec_bind_returned hgoes
    obtain ⟨rfl, rfl⟩ := exec_pure_returned hlast
    rw [List.append_nil, List.nil_append] at hserved
    obtain ⟨s₁, hserved₁, hserved₂⟩ := hserved.append
    have hbefore : SameTree s s₁ := hserved₁.sameTree (hlooked.forall_mem
      (P := fun c => c.pulls = false) (all_remoteVerifyRoots fun _ _ => rfl))
    cases hserved₂ with
    | @cons _ _ _ _ s' t₁ _ hsame hserves hserved₃ =>
      have hafter : SameTree t₁ t := hserved₃.sameTree (hverified.forall_mem
        (P := fun c => c.pulls = false) (all_verifyPull (fun _ => rfl) (fun _ _ => rfl) (fun _ _ => rfl) _ _))
      refine ⟨remoteRoots, summary', verified, s', t₁, rfl, hbefore.trans hsame, hserves, hserved₃, hafter, hverified,
        fun hmode => ?_⟩
      unfold remoteVerifyRoots at hlooked
      rw [if_pos hmode] at hlooked
      obtain ⟨concrete, _, _, -, hconcrete, hreturned⟩ := exec_bind_returned hlooked
      rw [(exec_pure_returned hreturned).2, eq_map_of_resolveSha256PullSources hconcrete]

/-- The local roots, as they are resolved after the pull. -/
def ResolvedAt (s : Os) (destination : Str) (roots : List TransferRoot) (localRoots : List Path) : Prop :=
  ∃ s', SameTree s s' ∧ (run Os.step (resolveLocalBatchRoots destination roots) s').1 = .ok localRoots

theorem resolvedAt_of_localRoots {destination : Str} {roots : List TransferRoot} {answer : Except CommandError (List Path)}
    {rest : AgentTrace} (h : ServedPull sides (⟨.localRoots destination roots, answer⟩ :: rest) s t) :
    ∃ s', SameTree s s' ∧ ServedPull sides rest s' t ∧
      ∀ localRoots, answer = .ok localRoots → ResolvedAt s destination roots localRoots := by
  cases h with
  | @cons _ _ _ _ s₁ t₁ _ hsame hserves hrest =>
    obtain ⟨hlooked, hresolved⟩ := hserves
    exact ⟨t₁, hsame.trans hlooked, hrest, fun localRoots hok => ⟨s₁, hsame, hresolved localRoots hok⟩⟩

/-- What a verification by size has found. -/
theorem localMatches_of_size (hmode : asked.verify = some .size) {remoteRoots : Option (List Path)} {summary : PullSummary}
    (h : Exec (verifyPull sides.codec asked remoteRoots summary) trace (.returned ())) (hserved : ServedPull sides trace s t) :
    ∃ localRoots, ResolvedAt s asked.destination summary.roots localRoots ∧
      ∀ (i : ℕ) (localRoot : Path), localRoots[i]? = some localRoot →
        LocalMatches sides false s (expectedTransferStateForRoot summary.entries (i % 2 ^ 32)) localRoot := by
  unfold verifyPull at h
  rw [hmode] at h
  obtain ⟨answer, rest, rfl, hrest⟩ := exec_ask_returned h
  obtain ⟨s', hlooked, hserved', hresolved⟩ := resolvedAt_of_localRoots hserved
  cases answer with
  | error err => cases hrest
  | ok localRoots =>
    obtain ⟨localRoots', quiet, rest', rfl, hquiet, hverified⟩ := exec_bind_returned hrest
    obtain ⟨rfl, rfl⟩ := exec_pure_returned hquiet
    rw [List.nil_append] at hserved'
    refine ⟨localRoots', hresolved localRoots' rfl, fun i localRoot hi => ?_⟩
    have hmatches := localMatches_of_verifyLocalRoots hverified hserved' i localRoot hi
    rw [Nat.zero_add] at hmatches
    exact hmatches.sameTree hlooked

/-- What a verification by SHA-256 has found. -/
theorem localMatches_of_sha256 (hmode : asked.verify = some .sha256) {remoteRoots : List Path} {summary : PullSummary}
    (h : Exec (verifyPull sides.codec asked (some remoteRoots) summary) trace (.returned ()))
    (hserved : ServedPull sides trace s t) :
    ∃ localRoots, ResolvedAt s asked.destination summary.roots localRoots ∧ remoteRoots.length = localRoots.length ∧
      ∀ pair ∈ remoteRoots.zip localRoots, ∃ expected looked r, LocalMatches sides true s expected pair.2 ∧
        Exec (collectRemoteTransferState sides.codec asked.target pair.1 true) looked (.returned (some expected)) ∧
          Served sides.daemon looked sides.remote r := by
  unfold verifyPull at h
  rw [hmode] at h
  obtain ⟨answer, rest, rfl, hrest⟩ := exec_ask_returned h
  obtain ⟨s', hlooked, hserved', hresolved⟩ := resolvedAt_of_localRoots hserved
  cases answer with
  | error err => cases hrest
  | ok localRoots =>
    obtain ⟨localRoots', quiet, rest', rfl, hquiet, hverified⟩ := exec_bind_returned hrest
    obtain ⟨rfl, rfl⟩ := exec_pure_returned hquiet
    rw [List.nil_append] at hserved'
    split at hverified
    · cases hverified
    · rename_i hlength
      refine ⟨localRoots', hresolved localRoots' rfl, not_not.mp hlength, fun pair hpair => ?_⟩
      obtain ⟨expected, looked, r, hmatches, hfound⟩ := localMatches_of_verifyAgainstRemote hverified hserved' pair hpair
      exact ⟨expected, looked, r, hmatches.sameTree hlooked, hfound⟩

end

end Agent

end Client

end Rsdb
