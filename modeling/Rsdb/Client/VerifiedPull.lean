/-
# A verified pull

With `--verify` the roots of a pull are resolved a second time, after they have arrived.
Where a run returns, everything of the sources is at the roots that come out
(`verified_pull_true`). Where the destination was a directory they come out as before. A
directory that was pulled to a path where nothing was is now looked for below itself,
where it cannot be: such a pull brings the whole of it, and fails
(`verified_pull_of_directory`).
-/
import Rsdb.Client.AgentPull

namespace Rsdb

open Prog (run Exec Stop All exec_bind exec_call_iff)
open Os (SameTree Leads below)

namespace Client

namespace Agent

/-! ### Where the roots are looked for -/

section

variable {s : Os} {base : Path} {dir : Loc} {y : Name} {mode : ℕ} {destination : Str}

/-- A directory is found at its name, unless the directory it is in cannot be searched. -/
theorem lookup_of_dir_below (hleads : Leads s base dir) (hview : s.view (dir ++ [y]) = some (.inr mode)) :
    s.lookup true (below base [y]) = .ok (dir ++ [y], .inr mode) ∨
      s.lookup true (below base [y]) = .error .permissionDenied := by
  obtain ⟨m, hdir⟩ := hleads.dir
  have hdirs : Os.DirsAbove s dir [y] := by
    intro pre hpre hne
    rcases List.prefix_cons_iff.mp hpre with rfl | ⟨rest, rfl, hrest⟩
    · exact ⟨m, by rwa [List.append_nil]⟩
    · obtain rfl := List.prefix_nil.mp hrest
      exact absurd rfl hne
  by_cases hsearch : Os.Searchable s dir [y]
  · left
    have hfound := Os.resolve_below hleads (List.cons_ne_nil y []) hdirs hsearch (fun target => by simp [hview]) true
    have hslash : (below base [y]).slash = false := Path.push_slash base y
    rw [Os.lookup, Bool.true_or, hfound, Os.foundAt, hview, hslash]
    rfl
  · right
    rw [Os.lookup, Bool.true_or, Os.resolve_below_denied hleads hdirs hsearch]

/-- The root is looked for in the directory at the destination. -/
theorem resolved_at_directory (hleads : Leads s base dir) (hview : s.view (dir ++ [y]) = some (.inr mode))
    (hpath : Path.ofStr destination = below base [y]) {root : TransferRoot} {localRoots : List Path}
    (h : (run Os.step (resolveLocalBatchRoots destination [root]) s).1 = .ok localRoots) :
    s.lookup true (.ofStr destination) = .ok (dir ++ [y], .inr mode) ∧ localRoots = [root.under (.ofStr destination)] := by
  have hlookup := lookup_of_dir_below hleads hview
  rw [← hpath] at hlookup
  rcases hlookup with hfound | hdenied
  · rw [run_resolveLocalBatchRoots hfound [root] (List.cons_ne_nil root []) rfl] at h
    exact ⟨hfound, (Except.ok.inj h).symm⟩
  · have hunique : ensureUniqueRootNames [root] = .ok () := rfl
    have hkind : (IoErrorKind.permissionDenied.toError).kind ≠ .notFound := by decide
    simp only [resolveLocalBatchRoots, List.cons_ne_nil, hunique, ↓reduceIte, Prog.ofExcept_ok, Prog.pure_bind, resolveRoots,
      Act.stat, Prog.ask_bind, Prog.run_call, Os.step_stat, hdenied, Except.map, Except.mapError, hkind, Prog.run_fail] at h
    cases h

/-- What is below the root in the directory at the destination is not all of the root. -/
theorem not_below_itself {t : Os} {source : Source} (hholds : Holds t (dir ++ [y]) source) (name : Name) :
    ∃ k obj, source.tree.view k = some obj ∧ t.view (dir ++ [y] ++ [name] ++ k) = none := by
  obtain ⟨k, obj, hk, hnone⟩ := DirTree.exists_missing_below source.ordered (List.cons_ne_nil name [])
  refine ⟨k, obj, hk, ?_⟩
  rw [List.append_assoc (dir ++ [y]), hholds, hnone]
  rfl

end

/-! ### The other side -/

section

variable {sides : PullSides} {sources : List Source} {specs : List Str}

/-- What is computed of each element. -/
theorem forall₂_of_mapM {α β ε : Type} {f : α → Except ε β} : ∀ {as : List α} {bs : List β}, as.mapM f = .ok bs →
    List.Forall₂ (fun a b => f a = .ok b) as bs
  | [], bs, h => by
    obtain rfl := Except.ok.inj h
    exact .nil
  | a :: as, bs, h => by
    rw [List.mapM_cons] at h
    obtain ⟨b, hb, h⟩ := ok_of_bind h
    obtain ⟨bs', hbs, h⟩ := ok_of_bind h
    obtain rfl := Except.ok.inj h
    exact .cons hb (forall₂_of_mapM hbs)

/-- Literal sources are each at the path it is given by. -/
theorem statSource_of_literal {glob : Str → Except AnyhowError (List Path)} {remote : Os}
    (hfound : Daemon.expandRemoteSources glob remote specs = .ok sources)
    (hliteral : ∀ spec ∈ specs, hasGlobPattern spec = false) :
    List.Forall₂ (fun spec source => Daemon.statSource remote (.ofStr spec) = .ok source) specs sources := by
  unfold Daemon.expandRemoteSources at hfound
  obtain ⟨paths, hpaths, hsources⟩ := ok_of_bind hfound
  have hsingle : ∀ {specs : List Str} {paths : List (List Path)}, (∀ spec ∈ specs, hasGlobPattern spec = false) →
      List.Forall₂ (fun spec paths => Daemon.expandSource glob remote spec = .ok paths) specs paths →
        paths.flatten = specs.map Path.ofStr := by
    intro specs paths hliteral h
    induction h with
    | nil => rfl
    | @cons spec found specs paths hspec hrest ih =>
      obtain ⟨hno, hothers⟩ := List.forall_mem_cons.mp hliteral
      have hone : found = [Path.ofStr spec] := by
        unfold Daemon.expandSource SourceErrors.expandSource at hspec
        rw [hno] at hspec
        dsimp only at hspec
        cases hlookup : remote.lookup true (Path.ofStr spec) with
        | ok x =>
          rw [hlookup] at hspec
          exact (Except.ok.inj hspec).symm
        | error e =>
          rw [hlookup] at hspec
          cases hspec
      rw [List.flatten_cons, ih hothers, hone, List.map_cons, List.singleton_append]
  rw [hsingle hliteral (forall₂_of_mapM hpaths)] at hsources
  exact List.forall₂_map_left_iff.mp (forall₂_of_mapM hsources)

/-- What is collected of a literal source is what it has. -/
theorem expects_of_collectRemoteTransferState {source : Source} (hnames : TextTree source.tree) {spec target : Str}
    (htext : isUtf8 spec = true) (hsource : Daemon.statSource sides.remote (.ofStr spec) = .ok source)
    {expected : TransferState} {looked : AgentTrace} {r : Os}
    (h : Exec (collectRemoteTransferState sides.codec target (.ofStr spec) true) looked (.returned (some expected)))
    (hserved : Served sides.daemon looked sides.remote r) : Expects sides.env.sha256 true source expected := by
  obtain ⟨-, ⟨top, hplace⟩, hview⟩ := SourceErrors.statSource_eq_ok hsource
  have hdisplay := Path.isText_ofStr htext
  have hread : Path.ofStr (pathText (.ofStr spec)) = .ofStr spec := by
    rw [pathText, utf8Lossy_of_isUtf8 (Path.isUtf8_display hdisplay), Path.ofStr_display]
  have hbelow : ∀ l obj, sides.remote.lookup false (.ofStr (pathText (.ofStr spec))) = .ok (l, obj) →
      ∀ k x, sides.remote.view (l ++ k) = some x → ∀ n ∈ k, isUtf8 n.1 = true := by
    intro l obj hlookup k x hk
    rw [hread, hplace] at hlookup
    obtain ⟨rfl, -⟩ := Prod.mk.inj (Except.ok.inj hlookup)
    exact hnames k x ((hview k).symm.trans hk)
  obtain ⟨l, obj, hlookup, hrecorded⟩ := recorded_of_collectRemoteTransferState hdisplay hbelow h hserved
  rw [hread, hplace] at hlookup
  obtain ⟨rfl, -⟩ := Prod.mk.inj (Except.ok.inj hlookup)
  intro key state
  rw [hrecorded key state]
  constructor
  · rintro ⟨k, x, -, hk, hkey, hstate⟩
    exact ⟨k, x, (hview k).symm.trans hk, hkey, hstate⟩
  · rintro ⟨k, x, hk, hkey, hstate⟩
    exact ⟨k, x, trivial, (hview k).trans hk, hkey, hstate⟩

end

/-! ### What a report says -/

section

variable {sides : PullSides} {asked : PullArgs} {sources : List Source} {os t : Os}

/-- A local root that matches what is expected of a source has what the source has. -/
theorem arrived_of_localMatches {includeHash : Bool} {expected : TransferState} {localRoot : Path} {source : Source}
    (hnames : TextBelow t localRoot) (hexpects : Expects sides.env.sha256 includeHash source expected)
    (h : LocalMatches sides includeHash t expected localRoot) :
    Arrived sides.env.sha256 includeHash t localRoot source := by
  obtain ⟨l, top, hp, hall⟩ := h.found
  refine ⟨l, top, hp, fun k obj hk => ?_⟩
  obtain ⟨k', obj', hkey, hk', hmatch⟩ := hall (hnames l top hp) _ _ ((hexpects _ _).mpr ⟨k, obj, hk, rfl, rfl⟩)
  obtain rfl := relativeOf_injective hkey
  exact ⟨obj', hk', digestsAs_of_matches hmatch⟩

/-- The pulls of sources that can be told apart. -/
structure PullSources (sides : PullSides) (asked : PullArgs) (sources : List Source) : Prop where
  found : Daemon.expandRemoteSources sides.glob sides.remote asked.sourceSpecs = .ok sources
  legible : ∀ source ∈ sources, source.Legible
  distinct : (sources.map Source.name?).Nodup
  few : sources.length ≤ 2 ^ 32
  carries : sides.codec.CarriesPull asked.sourceSpecs (manifestOf sources)
  literal : asked.verify = some .sha256 →
    ∀ spec ∈ asked.sourceSpecs, isUtf8 spec = true ∧ hasGlobPattern spec = false

end

/-- **What a verified pull reports is so.** Where the two sides have served the calls of a
run that returns: everything of every source is at the root that is resolved for it on the
client's side after the pull, by kind and size, and by SHA-256 if that was asked for. The
sources are listed as they are (`PullSources`), and the states that are compared have the names
as texts, so the names at the root are texts. -/
theorem verified_pull_true (sides : PullSides) (asked : PullArgs) {verify : TransferVerifyMode}
    (hverify : asked.verify = some verify) {sources : List Source} (hsources : PullSources sides asked sources)
    {os t : Os} {trace : AgentTrace} {report : PullSummary}
    (hexec : Exec (runAgentTransferPull sides.codec asked) trace (.returned report)) (hserved : ServedPull sides trace os t) :
    ∃ localRoots, ResolvedAt t asked.destination (sources.map Source.root) localRoots ∧
      ∀ (i : ℕ) (source : Source) (localRoot : Path), sources[i]? = some source → localRoots[i]? = some localRoot →
        TextBelow t localRoot → Arrived sides.env.sha256 (verifyUsesHash verify) t localRoot source := by
  obtain ⟨remoteRoots, summary, rest, s', t', -, hpulled⟩ := pulled_of_returned hexec hserved
  obtain ⟨runs, hsteady, hsession⟩ := hpulled.pulled
  obtain ⟨hroots, hentries, -⟩ := received_of_pullSession hsources.found hsources.legible hsources.distinct hsources.carries
    (hsteady sources hsources.found) hsession
  have hback : SameTree t t' := hpulled.after.symm
  have hresolvedAt : ∀ {localRoots}, ResolvedAt t' asked.destination summary.roots localRoots →
      ResolvedAt t asked.destination (sources.map Source.root) localRoots := by
    rintro localRoots ⟨s, hsame, hrun⟩
    exact ⟨s, hback.trans hsame, hroots ▸ hrun⟩
  cases verify with
  | size =>
    obtain ⟨localRoots, hresolved, hmatches⟩ := localMatches_of_size hverify hpulled.verified hpulled.served
    refine ⟨localRoots, hresolvedAt hresolved, fun i source localRoot hsource hroot hnames => ?_⟩
    have hlt := (List.getElem?_eq_some_iff.mp hsource).1
    have hmatch := (hmatches i localRoot hroot).sameTree hback
    rw [Nat.mod_eq_of_lt (lt_of_lt_of_le hlt hsources.few), hentries] at hmatch
    exact arrived_of_localMatches hnames
      (expectedTransferStateForRoot_expects sides.env.sha256 hsources.legible hsources.few hsource) hmatch
  | sha256 =>
    obtain rfl := hpulled.resolved hverify
    obtain ⟨localRoots, hresolved, -, hmatches⟩ := localMatches_of_sha256 hverify hpulled.verified hpulled.served
    refine ⟨localRoots, hresolvedAt hresolved, fun i source localRoot hsource hroot hnames => ?_⟩
    have hspecs := statSource_of_literal hsources.found fun spec hspec => (hsources.literal hverify spec hspec).2
    obtain ⟨hlt, rfl⟩ := List.getElem?_eq_some_iff.mp hsource
    have hltSpecs : i < asked.sourceSpecs.length := hspecs.length_eq ▸ hlt
    obtain ⟨spec, hspec⟩ : ∃ spec, asked.sourceSpecs[i]? = some spec := ⟨_, List.getElem?_eq_getElem hltSpecs⟩
    have hat : Daemon.statSource sides.remote (.ofStr spec) = .ok sources[i] := by
      obtain ⟨-, rfl⟩ := List.getElem?_eq_some_iff.mp hspec
      exact hspecs.get hltSpecs hlt
    have hmem := List.mem_of_getElem? hspec
    obtain ⟨expected, looked, r, hmatch, hcollected, hdaemon⟩ := hmatches (.ofStr spec, localRoot)
      (List.mem_of_getElem? (List.getElem?_zip_eq_some.mpr ⟨by rw [List.getElem?_map, hspec]; rfl, hroot⟩))
    exact arrived_of_localMatches hnames (expects_of_collectRemoteTransferState
      (hsources.legible _ (List.getElem_mem hlt)).text (hsources.literal hverify spec hmem).1 hat hcollected hdaemon)
      (hmatch.sameTree hback)

/-- A directory goes into one that is there. -/
def pullsIntoHome : PullArgs := ⟨str "host:1", [str "/d"], str "/in", some .size⟩

/-- The device has a directory with one file. -/
def directorySides : PullSides := ⟨Daemon.testFsEnv, pullCodec 0o755, noGlob, remoteDirectory 0o755⟩

/-- What the pull of it reports. -/
def directorySummary : PullSummary :=
  ⟨2, 2, 2, none, false, (manifestOf [pulledDirectory 0o755]).roots, (manifestOf [pulledDirectory 0o755]).entries⟩

/-- The state of its copy. -/
def directoryState : TransferState :=
  ((∅ : TransferState).insert [] ⟨.directory, none, none⟩).insert (str "f") ⟨.file, some 2, none⟩

/-- The calls of a pull into a directory that is there. -/
def intoHomeTrace : AgentTrace :=
  [⟨.pull [str "/d"] (str "/in"), .ok directorySummary⟩,
    ⟨.localRoots (str "/in") directorySummary.roots, .ok [Path.ofStr (str "/in/d")]⟩,
    ⟨.localState (Path.ofStr (str "/in/d")) false, .ok directoryState⟩]

theorem exec_intoHome : Exec (runAgentTransferPull directorySides.codec pullsIntoHome) intoHomeTrace
    (.returned ⟨2, 2, 2, some (str "size"), true, directorySummary.roots, directorySummary.entries⟩) :=
  .call _ (.call _ (.call _ (.pure _)))

/-- The client after that pull. -/
@[irreducible] def afterIntoHome : Os :=
  (pullSession (pullCodec 0o755) noGlob (remoteDirectory 0o755) (fun _ => byteReads) [str "/d"] (str "/in") userHome).2

theorem pullSession_intoHome : pullSession (pullCodec 0o755) noGlob (remoteDirectory 0o755) (fun _ => byteReads) [str "/d"]
    (str "/in") userHome = (.ok directorySummary, afterIntoHome) := by
  unfold afterIntoHome
  have hanswer : (pullSession (pullCodec 0o755) noGlob (remoteDirectory 0o755) (fun _ => byteReads) [str "/d"]
      (str "/in") userHome).1 = .ok directorySummary := by decide +kernel
  rw [← hanswer]

theorem resolved_intoHome :
    (run Os.step (resolveLocalBatchRoots (str "/in") directorySummary.roots) afterIntoHome).1 =
      .ok [Path.ofStr (str "/in/d")] := by
  unfold afterIntoHome
  decide +kernel

theorem collected_intoHome :
    (run Os.step (collectLocalTransferState directorySides.env false (Path.ofStr (str "/in/d"))) afterIntoHome).1 =
      .ok directoryState := by
  have hentries : (run Os.step (collectLocalTransferState directorySides.env false (Path.ofStr (str "/in/d")))
      afterIntoHome).1.toOption.map AList.entries = some directoryState.entries := by
    unfold afterIntoHome
    decide +kernel
  revert hentries
  cases (run Os.step (collectLocalTransferState directorySides.env false (Path.ofStr (str "/in/d"))) afterIntoHome).1 with
  | error err => exact nofun
  | ok state => exact fun hentries => congrArg Except.ok (AList.ext (Option.some.inj hentries))

theorem directory_steady : directorySides.Steady [str "/d"] fun _ => byteReads := by
  have hexpands : Daemon.expandRemoteSources noGlob (remoteDirectory 0o755) [str "/d"] = .ok [pulledDirectory 0o755] := rfl
  intro sources hfound
  obtain rfl := Except.ok.inj (hexpands.symm.trans hfound)
  exact byteReads_gives 0o755

theorem served_intoHome : ServedPull directorySides intoHomeTrace userHome afterIntoHome := by
  refine .cons (SameTree.refl _) ⟨fun _ => byteReads, directory_steady, pullSession_intoHome⟩ ?_
  refine .cons (SameTree.refl _) ⟨SameTree.refl _, fun paths hpaths => Except.ok.inj hpaths ▸ resolved_intoHome⟩ ?_
  refine .cons (SameTree.refl _) ⟨SameTree.refl _, fun state hstate => ?_⟩ (.nil (SameTree.refl _))
  exact Except.ok.inj hstate ▸ collected_intoHome

theorem directory_carries : directorySides.codec.CarriesPull [str "/d"] (manifestOf [pulledDirectory 0o755]) :=
  ⟨by decide +kernel, by decide +kernel, by decide +kernel, by decide +kernel, by decide +kernel, by decide +kernel⟩

theorem pullSources_directory : PullSources directorySides pullsIntoHome [pulledDirectory 0o755] where
  found := rfl
  legible source hsource := (pulledDirectory_good _ (by decide) source hsource).legible
  distinct := List.nodup_singleton _
  few := by decide
  carries := directory_carries
  literal := nofun

theorem verified_pull_true_directory : ResolvedAt afterIntoHome (str "/in") [(pulledDirectory 0o755).root]
      [Path.ofStr (str "/in/d")] ∧
    Arrived directorySides.env.sha256 false afterIntoHome (Path.ofStr (str "/in/d")) (pulledDirectory 0o755) := by
  have hnames : ∀ k x, afterIntoHome.view k = some x → ∀ n ∈ k, isUtf8 n.1 = true := by
    intro k x hk
    exact @Os.forall_view afterIntoHome (fun k _ => ∀ name ∈ k, isUtf8 name.1 = true) (by unfold afterIntoHome; decide +kernel)
      k _ hk
  obtain ⟨localRoots, hresolved, harrived⟩ := verified_pull_true directorySides pullsIntoHome rfl pullSources_directory
    exec_intoHome served_intoHome
  have hroots : localRoots = [Path.ofStr (str "/in/d")] := by
    obtain ⟨s, hsame, hrun⟩ := hresolved
    have hrun' : (run Os.step (resolveLocalBatchRoots (str "/in") [(pulledDirectory 0o755).root]) s).1 = .ok localRoots := hrun
    have hdest : s.lookup true (Path.ofStr (str "/in")) = .ok ([⟨str "in", by decide⟩], .inr 0o755) := by
      rw [hsame.lookup]
      unfold afterIntoHome
      decide +kernel
    rw [run_resolveLocalBatchRoots hdest _ (List.cons_ne_nil _ []) rfl] at hrun'
    exact (Except.ok.inj hrun').symm.trans (by decide +kernel)
  subst hroots
  refine ⟨hresolved, harrived 0 _ _ rfl rfl fun l top _ k x hk name hname => ?_⟩
  exact hnames (l ++ k) x hk name (List.mem_append_right l hname)

/-! ### A directory to a fresh path -/

section

variable {sides : PullSides} {asked : PullArgs} {s t : Os} {base : Path} {dir : Loc} {y : Name} {source : Source}

/-- A directory that has arrived does not match what is below it under its name. -/
theorem not_localMatches_below {includeHash : Bool} {expected : TransferState} (hgood : source.Good) {mode : ℕ}
    (hholds : Holds t (dir ++ [y]) source) (hdest : t.lookup true base = .ok (dir ++ [y], .inr mode))
    (hexpects : Expects sides.env.sha256 includeHash source expected) :
    ¬ LocalMatches sides includeHash t expected (source.root.under base) := by
  intro hmatches
  obtain ⟨name, hname⟩ := Option.isSome_iff_exists.mp hgood.named
  rw [TransferRoot.under_eq_below base (Source.ofStr_root hname (hgood.nameText name hname))] at hmatches
  obtain ⟨l, top, hp, hall⟩ := hmatches.found
  obtain rfl := Os.lookup_below_name (Os.leads_of_lookup hdest) hp
  obtain ⟨k, obj, hk, hnone⟩ := not_below_itself hholds name
  have hnames : ∀ k x, t.view (dir ++ [y] ++ [name] ++ k) = some x → ∀ n ∈ k, isUtf8 n.1 = true := by
    intro k x hk n hn
    rw [List.append_assoc (dir ++ [y]), hholds, Option.map_eq_some_iff] at hk
    obtain ⟨obj, hobj, -⟩ := hk
    exact hgood.text _ _ hobj n (List.mem_append_right _ hn)
  obtain ⟨k', obj', hkey, hk', -⟩ := hall hnames _ _ ((hexpects _ _).mpr ⟨k, obj, hk, rfl, rfl⟩)
  obtain rfl := relativeOf_injective hkey
  rw [hnone] at hk'
  cases hk'

theorem leads_of_sameTree (hleads : Leads s base dir) (hsame : SameTree s t) : Leads t base dir :=
  hleads.keeps ⟨hsame.toSameProcess, fun l _ h => (hsame.view l).trans h, fun l _ h => (hsame.view l).trans h⟩

end

/-- A destination that is a name of a directory, with nothing at it. -/
structure FreshAt (os : Os) (base : Path) (dir : Loc) (y : Name) (destination : Str) : Prop where
  leads : Leads os base dir
  room : os.mayChange (dir ++ [y]) = true
  absent : os.view (dir ++ [y]) = none
  text : isUtf8 y.1 = true
  path : Path.ofStr destination = below base [y]
  plain : endsWithSlash destination = false

section

variable {sides : PullSides} {asked : PullArgs} {os t : Os} {base : Path} {dir : Loc} {y : Name} {source : Source}

/-- A pull of one source to a fresh path, as it is served. -/
theorem holds_of_servesPull (hfound : Daemon.expandRemoteSources sides.glob sides.remote asked.sourceSpecs = .ok [source])
    (hgood : source.Good) (hcarries : sides.codec.CarriesPull asked.sourceSpecs (manifestOf [source]))
    (hfresh : FreshAt os base dir y asked.destination) {s' t' : Os} (hsame : SameTree os s') {summary : PullSummary}
    (h : ServesPull sides (.pull asked.sourceSpecs asked.destination) (.ok summary) s' t') :
    Holds t' (dir ++ [y]) source ∧ Leads t' base dir ∧ summary.roots = [source.root] ∧
      summary.entries = (manifestItems [source]).map Item.entry := by
  obtain ⟨runs, hsteady, hsession⟩ := h
  have hgives := hsteady [source] hfound
  obtain ⟨hroots, hentries, -⟩ := received_of_pullSession hfound
    (List.forall_mem_singleton.mpr hgood.legible) (List.nodup_singleton _) hcarries hgives hsession
  obtain ⟨hholds, hleads⟩ := holds_of_pullSession hfound hgood hcarries hgives (leads_of_sameTree hfresh.leads hsame)
    ((hsame.mayChange _).trans hfresh.room) ((hsame.view _).trans hfresh.absent) hfresh.text hfresh.path hfresh.plain hsession
  exact ⟨hholds, hleads, hroots, hentries⟩

/-- Wherever a run stops, all but its pull has changed nothing. -/
theorem served_of_exec {trace : AgentTrace} {stop : Stop AgentCommandFailure PullSummary}
    (hexec : Exec (runAgentTransferPull sides.codec asked) trace stop) (hserved : ServedPull sides trace os t)
    {answer : Except CommandError PullSummary} (hpulled : ⟨.pull asked.sourceSpecs asked.destination, answer⟩ ∈ trace) :
    ∃ s' t', SameTree os s' ∧ ServesPull sides (.pull asked.sourceSpecs asked.destination) answer s' t' ∧ SameTree t' t := by
  have hlooks : All (fun c => c.pulls = false) (remoteVerifyRoots sides.codec asked) := all_remoteVerifyRoots fun _ _ => rfl
  have hquiet : ∀ {first : AgentTrace}, (∀ c ∈ first, c.1.pulls = false) →
      ⟨.pull asked.sourceSpecs asked.destination, answer⟩ ∉ first := fun hfirst hmem => Bool.noConfusion (hfirst _ hmem)
  rcases exec_bind hexec with ⟨hcut, -⟩ | ⟨_, hcut, -⟩ | ⟨remoteRoots, looked, rest, rfl, hlooked, hgoes⟩
  · exact absurd hpulled (hquiet (hcut.forall_mem hlooks))
  · exact absurd hpulled (hquiet (hcut.forall_mem hlooks))
  · have hbefore := hlooked.forall_mem hlooks
    have hmem := (List.mem_append.mp hpulled).resolve_left (hquiet hbefore)
    rcases exec_call_iff.mp hgoes with ⟨rfl, -⟩ | ⟨answer', rest', rfl, hrest⟩
    · exact absurd hmem List.not_mem_nil
    · have hverify : ∀ summary, All (fun c => c.pulls = false) (verifyPull sides.codec asked remoteRoots summary >>=
          fun _ => .pure (asked.report summary)) := fun summary =>
        Prog.all_bind.mpr ⟨all_verifyPull (fun _ => rfl) (fun _ _ => rfl) (fun _ _ => rfl) _ _, fun _ _ => trivial⟩
      have hafter : ∀ c ∈ rest', c.1.pulls = false := hrest.forall_mem
        (Prog.all_bind.mpr ⟨trivial, fun _ _ => Prog.all_bind.mpr ⟨all_ofExcept _, fun summary _ => hverify summary⟩⟩)
      have heq := (List.mem_cons.mp hmem).resolve_right (hquiet hafter)
      obtain rfl := eq_of_heq (Sigma.mk.inj heq).2
      obtain ⟨s₁, hserved₁, hserved₂⟩ := hserved.append
      cases hserved₂ with
      | cons hsame hserves hserved₃ =>
        exact ⟨_, _, (hserved₁.sameTree hbefore).trans hsame, hserves, hserved₃.sameTree hafter⟩

end

/-- **A verified pull of a directory to a fresh path fails, with the directory there.**
Whatever the mode of the verification and whatever is answered, a run does not return
where one directory is pulled to a path at which nothing was; and where the pull itself
was answered well, wherever the run stops, exactly the directory is there. It is one that
arrives as it is (`Source.Good`), for a verification by SHA-256 the sources are given by
paths and not by patterns, and the messages are read back (`Codec.CarriesPull`). -/
theorem verified_pull_of_directory (sides : PullSides) (asked : PullArgs) {verify : TransferVerifyMode}
    (hverify : asked.verify = some verify) {source : Source}
    (hfound : Daemon.expandRemoteSources sides.glob sides.remote asked.sourceSpecs = .ok [source]) (hgood : source.Good)
    {mode : ℕ} (hdir : source.tree.view [] = some (.inr mode))
    (hliteral : verify = .sha256 →
      ∀ spec ∈ asked.sourceSpecs, isUtf8 spec = true ∧ hasGlobPattern spec = false)
    (hcarries : sides.codec.CarriesPull asked.sourceSpecs (manifestOf [source])) {os t : Os} {base : Path} {dir : Loc}
    {y : Name} (hfresh : FreshAt os base dir y asked.destination) {trace : AgentTrace}
    {stop : Stop AgentCommandFailure PullSummary} (hexec : Exec (runAgentTransferPull sides.codec asked) trace stop)
    (hserved : ServedPull sides trace os t) :
    (∀ report, stop ≠ .returned report) ∧
      ∀ summary, ⟨.pull asked.sourceSpecs asked.destination, .ok summary⟩ ∈ trace → Holds t (dir ++ [y]) source := by
  constructor
  · rintro report rfl
    obtain ⟨remoteRoots, summary, rest, s', t', -, hpulled⟩ := pulled_of_returned hexec hserved
    obtain ⟨hholds, hleads, hroots, hentries⟩ := holds_of_servesPull hfound hgood hcarries hfresh hpulled.before hpulled.pulled
    have hview : ∀ {s : Os}, SameTree t' s → s.view (dir ++ [y]) = some (.inr (fileMode mode)) := by
      intro s hsame
      have hhere := hholds []
      rw [List.append_nil, hdir] at hhere
      rw [hsame.view, hhere]
      rfl
    -- where the root is looked for
    have hlooks : ∀ {localRoots}, ResolvedAt t' asked.destination summary.roots localRoots →
        localRoots = [source.root.under (.ofStr asked.destination)] ∧
          t'.lookup true (.ofStr asked.destination) = .ok (dir ++ [y], .inr (fileMode mode)) := by
      rintro localRoots ⟨s, hsame, hresolved⟩
      rw [hroots] at hresolved
      obtain ⟨hdest, hlocal⟩ := resolved_at_directory (leads_of_sameTree hleads hsame) (hview hsame) hfresh.path hresolved
      exact ⟨hlocal, (hsame.lookup _ _).symm.trans hdest⟩
    cases verify with
    | size =>
      obtain ⟨localRoots, hresolved, hmatches⟩ := localMatches_of_size hverify hpulled.verified hpulled.served
      obtain ⟨rfl, hdest⟩ := hlooks hresolved
      have hexpects := @expectedTransferStateForRoot_expects [source] source 0 sides.env.sha256
        (List.forall_mem_singleton.mpr hgood.legible) Nat.one_le_two_pow rfl
      rw [hentries] at hmatches
      exact not_localMatches_below hgood hholds hdest hexpects (hmatches 0 _ rfl)
    | sha256 =>
      obtain rfl := hpulled.resolved hverify
      obtain ⟨localRoots, hresolved, -, hmatches⟩ := localMatches_of_sha256 hverify hpulled.verified hpulled.served
      obtain ⟨rfl, hdest⟩ := hlooks hresolved
      have hspecs := statSource_of_literal hfound fun spec hspec => (hliteral rfl spec hspec).2
      obtain ⟨spec, specs, hsource, hnil, hspec⟩ := List.forall₂_cons_right_iff.mp hspecs
      obtain rfl := List.forall₂_nil_right_iff.mp hnil
      obtain ⟨expected, looked, r, hmatch, hcollected, hdaemon⟩ := hmatches (.ofStr spec, _) (by
        rw [hspec]
        exact List.mem_cons_self)
      have htext := (hliteral rfl spec (by rw [hspec]; exact List.mem_cons_self)).1
      exact not_localMatches_below hgood hholds hdest
        (expects_of_collectRemoteTransferState hgood.text htext hsource hcollected hdaemon) hmatch
  · intro summary hpulled
    obtain ⟨s', t', hsame, hserves, hafter⟩ := served_of_exec hexec hserved hpulled
    have hholds := (holds_of_servesPull hfound hgood hcarries hfresh hsame hserves).1
    exact fun k => (hafter.view _).trans (hholds k)

/-- A directory goes to a name at which there is nothing. -/
def pullsDirectory : PullArgs := ⟨str "host:1", [str "/d"], str "/in/new", some .size⟩

theorem isName_in : IsName (str "in") := by decide

theorem isName_new : IsName (str "new") := by decide

/-- The root is looked for below itself, and is not there. -/
def directoryTrace : AgentTrace :=
  [⟨.pull [str "/d"] (str "/in/new"), .ok directorySummary⟩,
    ⟨.localRoots (str "/in/new") directorySummary.roots, .ok [Path.ofStr (str "/in/new/d")]⟩,
    ⟨.localState (Path.ofStr (str "/in/new/d")) false, .error ⟨str "failed to stat local path /in/new/d", [.io .notFound]⟩⟩]

theorem exec_directory : Exec (runAgentTransferPull directorySides.codec pullsDirectory) directoryTrace
    (.failed (transferVerificationFailure (str "host:1") (str "failed to stat local path /in/new/d")
      (pullsDirectory.verification .size))) :=
  .call _ (.call _ (.call _ (.fail _)))

/-- The client after a pull to a name where nothing is. -/
@[irreducible] def afterDirectory : Os :=
  (pullSession (pullCodec 0o755) noGlob (remoteDirectory 0o755) (fun _ => byteReads) [str "/d"] (str "/in/new") userHome).2

theorem pullSession_directory : pullSession (pullCodec 0o755) noGlob (remoteDirectory 0o755) (fun _ => byteReads) [str "/d"]
    (str "/in/new") userHome = (.ok directorySummary, afterDirectory) := by
  unfold afterDirectory
  have hanswer : (pullSession (pullCodec 0o755) noGlob (remoteDirectory 0o755) (fun _ => byteReads) [str "/d"]
      (str "/in/new") userHome).1 = .ok directorySummary := by decide +kernel
  rw [← hanswer]

theorem resolved_directory :
    (run Os.step (resolveLocalBatchRoots (str "/in/new") directorySummary.roots) afterDirectory).1 =
      .ok [Path.ofStr (str "/in/new/d")] := by
  unfold afterDirectory
  decide +kernel

theorem served_directory : ServedPull directorySides directoryTrace userHome afterDirectory := by
  refine .cons (SameTree.refl _) ⟨fun _ => byteReads, directory_steady, pullSession_directory⟩ ?_
  refine .cons (SameTree.refl _) ⟨SameTree.refl _, fun paths hpaths => Except.ok.inj hpaths ▸ resolved_directory⟩ ?_
  exact .cons (SameTree.refl _) ⟨SameTree.refl _, nofun⟩ (.nil (SameTree.refl _))

theorem verified_pull_of_directory_fresh : (∀ report : PullSummary, Stop.failed (transferVerificationFailure (str "host:1")
      (str "failed to stat local path /in/new/d") (pullsDirectory.verification .size)) ≠ .returned report) ∧
    ∀ summary, ⟨.pull [str "/d"] (str "/in/new"), .ok summary⟩ ∈ directoryTrace →
      Holds afterDirectory ([⟨str "in", isName_in⟩] ++ [⟨str "new", isName_new⟩]) (pulledDirectory 0o755) := by
  have hdest : userHome.lookup true (Path.ofStr (str "/in")) = .ok ([⟨str "in", isName_in⟩], .inr 0o755) := rfl
  have hfresh : FreshAt userHome (Path.ofStr (str "/in")) [⟨str "in", isName_in⟩] ⟨str "new", isName_new⟩ (str "/in/new") :=
    ⟨Os.leads_of_lookup hdest, by decide, by decide, by decide, by decide, by decide⟩
  exact verified_pull_of_directory directorySides pullsDirectory rfl rfl
    (pulledDirectory_good _ (by decide) _ List.mem_cons_self) rfl nofun
    directory_carries hfresh exec_directory served_directory

end Agent

end Client

end Rsdb
