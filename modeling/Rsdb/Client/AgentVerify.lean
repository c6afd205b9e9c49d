/-
# What a push reports of the other side

A push with `--verify` says that it has verified what it has pushed, and one with
`--if-changed` that there was nothing to push. Both rest on comparisons of a local source
with what the daemon reports of its root. Where the daemon has served the calls of the
run, the report is about the trees: everything of each source is at its root on the other
side, and if it was skipped, that side is as it was (`push_report_true`).
-/
import Rsdb.Client.StagedPush

namespace Rsdb

open Os (SameTree)
open Prog (run Exec Stop wp wp_iff_run exec_bind_returned exec_pure_returned exec_ask_returned)

namespace Client

namespace Agent

/-! ### The answers that were looked at -/

section

variable {codec : Codec} {target : Str} {trace : AgentTrace}

theorem exec_agentRequest_returned {command : Str} {request : ControlRequest} {details : List (Str × Detail)}
    {response : ControlResponse} (h : Exec (agentRequest target command request details) trace (.returned response)) :
    trace = [⟨.request request, .ok response⟩] := by
  unfold agentRequest at h
  obtain ⟨answer, rest, rfl, hrest⟩ := exec_ask_returned h
  rcases answer with err | response'
  · cases hrest
  · cases response'
    case error code message => cases hrest
    all_goals
      obtain ⟨rfl, rfl⟩ := exec_pure_returned hrest
      rfl

theorem exec_remoteFsStatRequest_returned {path : Str} {hash : Option HashAlgorithm} {stat : AgentFsStat}
    (h : Exec (remoteFsStatRequest codec target path hash) trace (.returned stat)) :
    trace = [⟨.request (.fsStat path hash), .ok (.fsStat stat)⟩] := by
  unfold remoteFsStatRequest at h
  obtain ⟨response, first, rest, rfl, hfirst, hrest⟩ := exec_bind_returned h
  obtain rfl := exec_agentRequest_returned hfirst
  cases response
  case fsStat stat' =>
    obtain ⟨rfl, rfl⟩ := exec_pure_returned hrest
    rfl
  all_goals cases hrest

theorem exec_remoteFsListRequest_returned {path : Str} {hash : Option HashAlgorithm} {entries : List AgentFsListEntry}
    (h : Exec (remoteFsListRequest codec target path hash) trace (.returned entries)) :
    trace = [⟨.request (.fsList path true none true hash), .ok (.fsList entries)⟩] := by
  unfold remoteFsListRequest at h
  obtain ⟨response, first, rest, rfl, hfirst, hrest⟩ := exec_bind_returned h
  obtain rfl := exec_agentRequest_returned hfirst
  cases response
  case fsList entries' =>
    obtain ⟨rfl, rfl⟩ := exec_pure_returned hrest
    rfl
  all_goals cases hrest

end

/-! ### What the daemon has answered -/

section

variable {sides : Sides} {s t : Os} {path : Str}

theorem served_one {c : AgentCall} {r : c.Answer} (hlooks : c.changes = false) (h : Served sides [⟨c, r⟩] s t) :
    ∃ s' t', SameTree s s' ∧ Serves sides c r s' t' ∧ SameTree s t := by
  cases h with
  | cons hsame hserves hrest =>
    cases hrest with
    | nil hlast => exact ⟨_, _, hsame, hserves, (hsame.trans (sameTree_of_serves hlooks hserves)).trans hlast⟩

theorem run_of_serves {α : Type} {request : ControlRequest} {handler : Act α} {respond : α → ControlResponse}
    (hknown : Daemon.fsOperation sides.env request = some (Daemon.responding handler respond)) {response : ControlResponse}
    (h : Serves sides (.request request) (.ok response) s t) (hno : ∀ code message, response ≠ .error code message) :
    ∃ a t', run Os.step handler s = (.ok a, t') ∧ response = respond a := by
  obtain ⟨operation, result, hoperation, hrun, hanswer⟩ := h
  obtain rfl := Option.some.inj (hknown.symm.trans hoperation)
  have hresponse : Daemon.fsAnswer sides.codec.response (run Os.step (Daemon.responding handler respond) s).1 = response := by
    rw [hrun]
    exact hanswer.symm
  obtain ⟨t', hran⟩ := Daemon.run_of_fsAnswer hresponse hno
  obtain ⟨a, t'', ha, hlast⟩ := (Prog.run_bind_ok _).mp hran
  exact ⟨a, t'', ha, (Except.ok.inj (Prod.mk.inj hlast).1).symm⟩

/-- A stat of something that is there. -/
theorem lookup_of_handleFsStat {sha256 : Bytes → Str} {reads : ℕ} {mtimeUnixMs : Path → Option ℕ}
    {hash : Option HashAlgorithm} {stat : AgentFsStat}
    (h : run Os.step (Daemon.handleFsStat sha256 reads mtimeUnixMs path hash) s = (.ok stat, t)) (hpresent : stat.present ≠ false) :
    ∃ l obj, s.lookup false (.ofStr path) = .ok (l, obj) := by
  obtain ⟨requested, s', hvalid, hstat⟩ := (Prog.run_bind_ok _).mp h
  rw [Prog.run_ofExcept] at hvalid
  have hpath := Daemon.validateFsPath_eq_ok (Prod.mk.inj hvalid).1
  subst hpath
  obtain rfl := (Prod.mk.inj hvalid).2
  cases hlookup : s.lookup false (.ofStr path) with
  | ok found => exact ⟨found.1, found.2, rfl⟩
  | error e =>
    unfold Daemon.blockingFsStat at hstat
    obtain ⟨answer, s'', hanswer, hrest⟩ := (Prog.run_bind_ok _).mp hstat
    rw [Act.lstat, Prog.run_ask, Os.step_lstat, hlookup] at hanswer
    obtain ⟨heq, rfl⟩ := Prod.mk.inj hanswer
    obtain rfl := Except.ok.inj heq
    dsimp only [Except.map, Except.mapError] at hrest
    split at hrest
    · exact absurd (Except.ok.inj (Prod.mk.inj hrest).1 ▸ rfl) hpresent
    · cases (Prod.mk.inj hrest).1

end

/-! ### What is collected -/

section

variable {sides : Sides} {target : Str} {s s₁ t : Os} {root : Path} {path : Str} {includeHash : Bool}
  {trace : AgentTrace} {l : Loc} {obj : Obj}

/-- A stat that finds something gives what it is. -/
theorem statOf_of_served {stat : AgentFsStat}
    (h : Exec (remoteFsStatRequest sides.codec target path (hashWanted includeHash)) trace (.returned stat))
    (hserved : Served sides trace s t) (hpresent : stat.present ≠ false) : ∃ l obj,
      s.lookup false (.ofStr path) = .ok (l, obj) ∧ stat = statOf sides.env s (.ofStr path) (hashWanted includeHash) l obj := by
  obtain rfl := exec_remoteFsStatRequest_returned h
  obtain ⟨s', t', hsame, hserves, -⟩ := served_one rfl hserved
  obtain ⟨stat', t'', hrun, heq⟩ := run_of_serves rfl hserves nofun
  obtain rfl := ControlResponse.fsStat.inj heq
  obtain ⟨l, obj, hp'⟩ := lookup_of_handleFsStat hrun hpresent
  have hp : s.lookup false (.ofStr path) = .ok (l, obj) := (hsame.lookup _ _).symm.trans hp'
  have hstat := @wp_handleFsStat sides.env False _ _ _ _ _ hp False.elim (hashWanted includeHash) hsame
  exact ⟨l, obj, hp, ((wp_iff_run.mp hstat).1 _ _ hrun).1⟩

/-- A listing has what is there. -/
theorem listedExactly_of_served {entries : List AgentFsListEntry}
    (h : Exec (remoteFsListRequest sides.codec target path (hashWanted includeHash)) trace (.returned entries))
    (hserved : Served sides trace s₁ t) (hsame : SameTree s s₁) (htext : (Path.ofStr path).IsText)
    (hp : s.lookup false (.ofStr path) = .ok (l, obj))
    (hnames : ∀ k x, s.view (l ++ k) = some x → ∀ n ∈ k, isUtf8 n.1 = true) :
    Daemon.ListedExactly sides.env (wholeListing includeHash) s (.ofStr path) entries (l, obj) := by
  obtain rfl := exec_remoteFsListRequest_returned h
  obtain ⟨s', t', hsame', hserves, -⟩ := served_one rfl hserved
  obtain ⟨entries', t'', hrun, heq⟩ := run_of_serves rfl hserves nofun
  obtain rfl := ControlResponse.fsList.inj heq
  have hlist := @wp_handleFsList sides.env False _ _ _ _ _ htext hp hnames (wholeListing includeHash) False.elim
    (hsame.trans hsame')
  exact ((wp_iff_run.mp hlist).1 _ _ hrun).1

/-- The states the other side reports are those of the tree there. -/
theorem recorded_of_collectRemoteTransferState (htext : root.IsText)
    (hnames : ∀ l obj, s.lookup false (.ofStr (pathText root)) = .ok (l, obj) →
      ∀ k x, s.view (l ++ k) = some x → ∀ n ∈ k, isUtf8 n.1 = true) {state : TransferState}
    (h : Exec (collectRemoteTransferState sides.codec target root includeHash) trace (.returned (some state)))
    (hserved : Served sides trace s t) : ∃ l obj, s.lookup false (.ofStr (pathText root)) = .ok (l, obj) ∧
      Recorded sides.env.sha256 includeHash s l (fun _ => True) state := by
  have hstring : pathText root = root.display := utf8Lossy_of_isUtf8 (Path.isUtf8_display htext)
  unfold collectRemoteTransferState collectRemotely at h
  obtain ⟨stat, asked, rest, rfl, hasked, hgoes⟩ := exec_bind_returned h
  obtain ⟨s₁, hstatted, hrest⟩ := hserved.append
  have hlooked := sameTree_of_quiet ((looks_remoteFsStatRequest _ _ _ _).changesOf hasked) hstatted
  split at hgoes
  · cases (exec_pure_returned hgoes).2
  rename_i hpresent
  obtain ⟨l, obj, hp, rfl⟩ := statOf_of_served hasked hstatted hpresent
  have hv := (Os.lookup_eq_ok hp).2.1
  refine ⟨l, obj, hp, ?_⟩
  obtain ⟨rootState, quiet, rest', rfl, hquiet, hlists⟩ := exec_bind_returned hgoes
  unfold internally at hquiet
  rw [transferStateFromStat_statOf] at hquiet
  obtain ⟨rfl, rfl⟩ := exec_pure_returned hquiet
  have hself : Recorded sides.env.sha256 includeHash s l (fun k => k = [])
      ((∅ : TransferState).insert [] (stateOf sides.env.sha256 includeHash obj)) :=
    (@Recorded.insert _ _ _ _ _ _ (Recorded.empty sides.env.sha256 includeHash s l) [] obj (by rw [List.append_nil, hv])).congr
      fun k _ _ => by simp
  dsimp only at hlists
  rcases obj with leaf | mode
  · have hno : some (Obj.kind (.inl leaf)) ≠ some .directory := by
      cases leaf <;> exact fun h => FsEntryKind.noConfusion (Option.some.inj h)
    have hself' := (exec_pure_returned ((if_neg hno).subst (motive := fun x => Exec x rest' _) hlists)).2
    obtain rfl := Option.some.inj hself'
    refine hself.congr fun k x hx => ⟨fun _ => ?_, fun _ => trivial⟩
    cases k with
    | nil => rfl
    | cons n k =>
      rw [Os.view, DirTree.view_append_of_leaf hv] at hx
      cases hx
  · obtain ⟨entries, listed, rest'', rfl, hlisted, hadds⟩ := exec_bind_returned hlists
    rw [List.nil_append] at hrest
    obtain ⟨s₂, hserved', -⟩ := hrest.append
    have htext' : (Path.ofStr (pathText root)).IsText := by
      rw [hstring]
      exact Path.isText_ofStr (Path.isUtf8_display htext)
    obtain ⟨-, items, hitems, rfl⟩ := listedExactly_of_served hlisted hserved' hlooked htext' hp
      (hnames l _ hp)
    have hmem : ∀ item ∈ items, item.1 ≠ [] ∧ s.view (l ++ item.1) = some item.2 := by
      rintro ⟨k, x⟩ hitem
      obtain ⟨hwants, hview⟩ := (hitems.mem k x).mp hitem
      exact ⟨(wholeListing_wants includeHash k).mp hwants, hview⟩
    rw [show utf8Lossy root.display = root.display from hstring, Path.ofStr_display] at hadds
    obtain ⟨state', hadd, hrecorded⟩ := @addEntries_recorded sides.env s root l includeHash (hnames l _ hp)
      (wholeListing includeHash) rfl items hmem _ _ hself
    unfold internally at hadds
    rw [hadd] at hadds
    obtain rfl := Option.some.inj (exec_pure_returned hadds).2
    refine hrecorded.congr fun k x hx => ⟨fun _ => ?_, fun _ => trivial⟩
    by_cases hk : k = []
    · exact Or.inl hk
    · exact Or.inr ⟨(k, x), (hitems.mem k x).mpr ⟨(wholeListing_wants includeHash k).mpr hk, hx⟩, rfl⟩

/-- The states the client collects are those of the source. -/
theorem recorded_of_localState {source : Source} (htext : TextTree source.tree) {p : Path}
    (hfound : statSource sides.host p = .ok source) {state : TransferState}
    (h : (run Os.step (collectLocalTransferState sides.env includeHash source.path) sides.host).1 = .ok state) :
    Recorded sides.env.sha256 includeHash sides.host source.place (fun _ => True) state := by
  obtain ⟨rfl, ⟨top, hp⟩, hview⟩ := statSource_eq_ok hfound
  have hnames : ∀ k x, sides.host.view (source.place ++ k) = some x → ∀ n ∈ k, isUtf8 n.1 = true :=
    fun k x hk => htext k x ((hview k).symm.trans hk)
  have hlocal := @wp_collectLocalTransferState sides.env includeHash False _ _ _ _ hp hnames False.elim
  exact (wp_iff_run.mp hlocal).1 state _ (Prod.ext h rfl)

end

/-! ### What a comparison says -/

/-- The same kind of thing; for files of the same size, and of the same digest if hashes are compared. -/
def Obj.DigestsAs (sha256 : Bytes → Str) (includeHash : Bool) : Obj → Obj → Prop
  | .inl (.file _ content), .inl (.file _ content') =>
    content.length = content'.length ∧ (includeHash = true → sha256 content = sha256 content')
  | .inl (.symlink _), .inl (.symlink _) | .inl (.other _), .inl (.other _) | .inr _, .inr _ => True
  | _, _ => False

theorem digestsAs_of_matches {sha256 : Bytes → Str} {includeHash : Bool} {obj obj' : Obj}
    (h : (stateOf sha256 includeHash obj).matches (stateOf sha256 includeHash obj') = true) :
    Obj.DigestsAs sha256 includeHash obj obj' := by
  match obj, obj' with
  | .inl (.file _ content), .inl (.file _ content') =>
    cases includeHash <;>
      simpa [stateOf, TransferPathState.matches, Obj.DigestsAs, hashWanted, Daemon.digestOf, Obj.kind, Obj.fileSize] using h
  | .inl (.symlink _), .inl (.symlink _) | .inl (.other _), .inl (.other _) | .inr _, .inr _ => trivial
  | .inl (.file _ _), .inl (.symlink _) | .inl (.file _ _), .inl (.other _) | .inl (.file _ _), .inr _
  | .inl (.symlink _), .inl (.file _ _) | .inl (.symlink _), .inl (.other _) | .inl (.symlink _), .inr _
  | .inl (.other _), .inl (.file _ _) | .inl (.other _), .inl (.symlink _) | .inl (.other _), .inr _
  | .inr _, .inl (.file _ _) | .inr _, .inl (.symlink _) | .inr _, .inl (.other _) =>
    simp [stateOf, TransferPathState.matches, Obj.kind] at h

/-- Everything of a source is where a path leads, at the same place below it. -/
def Arrived (sha256 : Bytes → Str) (includeHash : Bool) (t : Os) (root : Path) (source : Source) : Prop :=
  ∃ l top, t.lookup false root = .ok (l, top) ∧ ∀ k obj, source.tree.view k = some obj →
    ∃ obj', t.view (l ++ k) = some obj' ∧ Obj.DigestsAs sha256 includeHash obj obj'

/-- The names below where a path leads are texts. -/
def TextBelow (t : Os) (root : Path) : Prop :=
  ∀ l top, t.lookup false root = .ok (l, top) → ∀ k x, t.view (l ++ k) = some x → ∀ name ∈ k, isUtf8 name.1 = true

theorem TextBelow.sameTree {s t : Os} {root : Path} (h : TextBelow s root) (hsame : SameTree s t) : TextBelow t root :=
  fun l top hp k x hk => h l top ((hsame.lookup _ _).symm.trans hp) k x ((hsame.view _).symm.trans hk)

/-- A source, and the path of its root, which is a text. -/
structure Compares (sides : Sides) (place : Placement) (source : Source) : Prop where
  sourcePath : place.source = source.path
  text : TextTree source.tree
  found : ∃ p, statSource sides.host p = .ok source
  rootText : place.remoteRoot.IsText

section

variable {sides : Sides} {asked : PushArgs} {s t : Os} {includeHash : Bool} {trace : AgentTrace}

theorem Arrived.sameTree {sha256 : Bytes → Str} {root : Path} {source : Source}
    (h : Arrived sha256 includeHash s root source) (hsame : SameTree s t) : Arrived sha256 includeHash t root source := by
  obtain ⟨l, top, hp, hall⟩ := h
  refine ⟨l, top, (hsame.lookup _ _).trans hp, fun k obj hk => ?_⟩
  obtain ⟨obj', hview, halike⟩ := hall k obj hk
  exact ⟨obj', (hsame.view _).trans hview, halike⟩

/-- A source that matches its root has arrived there. -/
theorem arrived_of_matchesRemote {place : Placement} {source : Source} (hcompares : Compares sides place source)
    (hnames : TextBelow s (.ofStr (pathText place.remoteRoot)))
    (h : Exec (matchesRemote sides.codec asked place includeHash) trace (.returned true)) (hserved : Served sides trace s t) :
    Arrived sides.env.sha256 includeHash s (.ofStr (pathText place.remoteRoot)) source := by
  obtain ⟨hsource, htree, ⟨p, hfound⟩, htext⟩ := hcompares
  unfold matchesRemote localStateOf at h
  obtain ⟨state, first, rest, rfl, hlocal, hremote⟩ := exec_bind_returned h
  obtain ⟨answer, quiet, rfl, hanswer⟩ := exec_ask_returned hlocal
  cases answer with
  | error err => cases hanswer
  | ok state' =>
    obtain ⟨rfl, rfl⟩ := exec_pure_returned hanswer
    obtain ⟨s₁, hserved₁, hserved₂⟩ := hserved.append
    obtain ⟨s', t', hsame, hserves, hlooked⟩ := served_one rfl hserved₁
    have hstate := recorded_of_localState htree hfound (hsource ▸ hserves.2 state rfl)
    obtain ⟨found, looked, rest', rfl, hcollected, hmatch⟩ := exec_bind_returned hremote
    obtain ⟨state', rfl, hmatched⟩ := (Option.any_eq_true _ _).mp (exec_pure_returned hmatch).2.symm
    obtain ⟨s₂, hserved₃, -⟩ := hserved₂.append
    obtain ⟨l, top, hp, hstate'⟩ := recorded_of_collectRemoteTransferState htext (hnames.sameTree hlooked)
      hcollected hserved₃
    refine ⟨l, top, (hlooked.lookup _ _).symm.trans hp, fun k obj hk => ?_⟩
    have hview := ((statSource_eq_ok hfound).2.2 k).trans hk
    obtain ⟨s'', hs'', hdigests⟩ := (transferStatesMatch_iff _ _).mp hmatched _ _
      ((hstate _ _).mpr ⟨k, obj, trivial, hview, rfl, rfl⟩)
    obtain ⟨k', obj', -, hk', hkey, rfl⟩ := (hstate' _ _).mp hs''
    obtain rfl := relativeOf_injective hkey
    exact ⟨obj', (hlooked.view _).symm.trans hk', digestsAs_of_matches hdigests⟩

/-- Sources whose roots have been compared have arrived. -/
theorem arrived_of_compared {places : List Placement} (h : Compared sides.codec asked includeHash places trace) :
    ∀ {s : Os}, Served sides trace s t → ∀ place ∈ places, ∀ source, Compares sides place source →
      TextBelow t (.ofStr (pathText place.remoteRoot)) →
        Arrived sides.env.sha256 includeHash t (.ofStr (pathText place.remoteRoot)) source := by
  induction h with
  | nil => exact fun _ place hplace => absurd hplace List.not_mem_nil
  | @cons place places first rest hfirst hrest ih =>
    intro s hserved place' hplace source hcompares hnames
    obtain ⟨s₁, hserved₁, hserved₂⟩ := hserved.append
    rcases List.mem_cons.mp hplace with rfl | hplace
    · have hsame := (sameTree_of_quiet ((looks_matchesRemote includeHash).changesOf hfirst) hserved₁).trans
        (sameTree_of_quiet hrest.changesOf hserved₂)
      exact (arrived_of_matchesRemote hcompares (hnames.sameTree hsame.symm) hfirst hserved₁).sameTree hsame
    · exact ih hserved₂ place' hplace source hcompares hnames

end

/-! ### The report -/

section

variable {codec : Codec} {target destination : Str} {trace : AgentTrace}

/-- The roots of sources that have names are texts. -/
theorem isText_of_resolve {sources : List Source} (hnamed : ∀ source ∈ sources, source.name?.isSome = true)
    (hdest : isUtf8 destination = true) {remoteRoots : List Path}
    (h : Exec (resolveRemoteBatchRoots codec target destination (sources.map Source.root)) trace (.returned remoteRoots)) :
    ∀ root ∈ remoteRoots, root.IsText := by
  intro root hroot
  have htext := Path.isText_ofStr hdest
  rcases mem_of_resolve h root hroot with rfl | ⟨r, hr, rfl⟩
  · exact htext
  · obtain ⟨source, hsource, rfl⟩ := List.mem_map.mp hr
    obtain ⟨name, hname⟩ := Option.isSome_iff_exists.mp (hnamed source hsource)
    rw [TransferRoot.under_eq_below _ (Source.ofStr_root_lossy hname)]
    have hnameText : ∀ n ∈ [lossyName name], isUtf8 n.1 = true := List.forall_mem_singleton.mpr (isUtf8_utf8Lossy name.1)
    exact htext.foldl_push hnameText

end

/-- The sources a push was asked to bring, each at its root: those whose names are texts,
where the names at the root are texts. -/
def AllArrived (sides : Sides) (includeHash : Bool) (t : Os) (sources : List Source) (remoteRoots : List Path) : Prop :=
  ∀ (i : ℕ) (source : Source) (root : Path), sources[i]? = some source → remoteRoots[i]? = some root →
    TextTree source.tree → TextBelow t (.ofStr (pathText root)) →
      Arrived sides.env.sha256 includeHash t (.ofStr (pathText root)) source

/-- **What a push reports is so.** Where the daemon has served the calls of a run that
returns, however the run went and whatever was there before: a report that the push is
verified means that everything of every source is now at its root on the other side, by
kind and size, and by SHA-256 if that was asked for; a report that it was skipped means
that everything of every source was there with the same hashes, and that the other side
is as it was. The states that are compared have the names as texts, so a source is one
whose names are texts, and so are the names at its root. -/
theorem push_report_true (sides : Sides) (asked : PushArgs) {trace : AgentTrace} {summary : PushSummary} {os t : Os}
    (h : Exec (runAgentTransferPush sides.codec asked) trace (.returned summary)) (hserved : Served sides trace os t)
    {sources : List Source} (hfound : expandLocalSources sides.localGlob sides.host asked.sourceSpecs = .ok sources)
    (hdest : isUtf8 asked.destination = true) :
    ∃ remoteRoots rest, Begins sides.codec asked trace (.of sources) remoteRoots rest ∧
      remoteRoots.length = sources.length ∧
      (summary.verified = true → ∃ mode, asked.verify = some mode ∧
        AllArrived sides (verifyUsesHash mode) t sources remoteRoots) ∧
      (summary.skipped = true → SameTree os t ∧ AllArrived sides true t sources remoteRoots) := by
  obtain ⟨manifest, remoteRoots, rest, hbegins, hverified, hskipped⟩ := justified_of_returned h
  obtain ⟨looked, rfl, hlooked⟩ := hbegins.split
  -- the manifest is that of the sources
  have hmanifest : (∀ source ∈ sources, source.Listed) ∧ manifest = .of sources := by
    cases hserved with
    | cons hsame hserves hrest =>
      obtain ⟨sources', hfound', hbuilt⟩ := hserves.2 manifest rfl
      obtain rfl := Except.ok.inj (hfound.symm.trans hfound')
      obtain ⟨hlisted, -, hof⟩ := build_eq_ok.mp hbuilt
      exact ⟨hlisted, hof.symm⟩
  obtain ⟨hlisted, rfl⟩ := hmanifest
  have hlength : remoteRoots.length = sources.length := by
    rw [length_of_resolve hlooked]
    exact List.length_map _
  have hrootTexts := isText_of_resolve (fun source hsource => (hlisted source hsource).named) hdest hlooked
  have hplaced : ∀ {includeHash : Bool} {compared : AgentTrace} {s₁ s₂ : Os}, Served sides compared s₁ s₂ →
      Compared sides.codec asked includeHash (placements (sources.map Source.path) remoteRoots) compared → SameTree s₂ t →
        AllArrived sides includeHash t sources remoteRoots := by
    intro includeHash compared s₁ s₂ hserved' hcompared hsame i source root hsource hroot htext hnames
    have hmem := List.mem_of_getElem? hsource
    have hplace : (⟨source.path, root, i⟩ : Placement) ∈ placements (sources.map Source.path) remoteRoots := by
      refine List.mem_map.mpr ⟨((source.path, root), i), List.mem_zipIdx_iff_getElem?.mpr ?_, rfl⟩
      exact List.getElem?_zip_eq_some.mpr ⟨by rw [List.getElem?_map, hsource]; rfl, hroot⟩
    exact (arrived_of_compared hcompared hserved' _ hplace source
      ⟨rfl, htext, exists_statSource hfound hmem, hrootTexts root (List.mem_of_getElem? hroot)⟩ (hnames.sameTree hsame.symm)).sameTree hsame
  have hserved' : Served sides ((⟨.buildManifest asked.sourceSpecs, .ok (.of sources)⟩ :: looked) ++ rest) os t := hserved
  obtain ⟨s, hbefore, hafter⟩ := hserved'.append
  refine ⟨remoteRoots, rest, hbegins, hlength, fun hsome => ?_, fun hsome => ?_⟩
  · obtain ⟨mode, before, compared, hmode, rfl, hcompared⟩ := hverified hsome
    obtain ⟨s₁, -, hserved₁⟩ := hafter.append
    exact ⟨mode, hmode, hplaced hserved₁ hcompared (SameTree.refl t)⟩
  · obtain ⟨hquiet, compared, after, rfl, hcompared⟩ := hskipped hsome
    have hbegan : changesOf (⟨.buildManifest asked.sourceSpecs, .ok (.of sources)⟩ :: looked) = [] := by
      rw [changesOf_looking rfl, (looks_resolveRemoteBatchRoots _ _ _ _).changesOf hlooked]
    obtain ⟨s₁, hserved₁, hserved₂⟩ := hafter.append
    rw [changesOf_append, hcompared.changesOf, List.nil_append] at hquiet
    have hsame := sameTree_of_quiet hquiet hserved₂
    have hunchanged := ((sameTree_of_quiet hbegan hbefore).trans (sameTree_of_quiet hcompared.changesOf hserved₁)).trans hsame
    exact ⟨hunchanged, hplaced hserved₁ hcompared hsame⟩

/-- A file that is there already, and is verified. -/
def verifiesFile : PushArgs := ⟨str "host:1", [str "/f"], str "/f", some .sha256, false, true⟩

/-- What is found there, with its digest. -/
def hashedStat : AgentFsStat := ⟨str "/f", true, some .file, some 2, some 0o644, none, some (str "hi")⟩

/-- The same where no digest was asked for. -/
def plainStat : AgentFsStat := { hashedStat with sha256 := none }

/-- The state of the source, which has no path below its root. -/
def fileState : TransferState := (∅ : TransferState).insert [] ⟨.file, some 2, some (str "hi")⟩

/-- The calls of that push. -/
def verifyTrace : AgentTrace :=
  [⟨.buildManifest [str "/f"], .ok (.of [fileSource])⟩, ⟨.request (.fsStat (str "/f") none), .ok (.fsStat plainStat)⟩,
    ⟨.localState (Path.ofStr (str "/f")) true, .ok fileState⟩,
    ⟨.request (.fsStat (str "/f") (some .sha256)), .ok (.fsStat hashedStat)⟩,
    ⟨.localState (Path.ofStr (str "/f")) true, .ok fileState⟩,
    ⟨.request (.fsStat (str "/f") (some .sha256)), .ok (.fsStat hashedStat)⟩]

theorem exec_verify : Exec (runAgentTransferPush fileSides.codec verifiesFile) verifyTrace
    (.returned ⟨0, 0, true, some (str "sha256"), true⟩) :=
  .call _ (.call _ (.call _ (.call _ (.call _ (.call _ (.pure _))))))

/-- What the daemon does when it is asked for the file. -/
def looksAt (hash : Option HashAlgorithm) : Act ControlResponse :=
  Daemon.responding (Daemon.handleFsStat Daemon.testFsEnv.sha256 Daemon.testFsEnv.reads Daemon.testFsEnv.mtimeUnixMs
    (str "/f") hash) .fsStat

/-- The other side after the first of the three looks. -/
@[irreducible] def afterFirst : Os := (run Os.step (looksAt none) (Edit.remoteFile (str "hi"))).2

/-- The second asks for the digest. -/
@[irreducible] def afterSecond : Os := (run Os.step (looksAt (some .sha256)) afterFirst).2

/-- The third asks again, to verify. -/
@[irreducible] def afterThird : Os := (run Os.step (looksAt (some .sha256)) afterSecond).2

theorem run_first : ∃ result, run Os.step (looksAt none) (Edit.remoteFile (str "hi")) = (result, afterFirst) ∧
    Daemon.fsAnswer fileSides.codec.response result = .fsStat plainStat := by
  unfold afterFirst
  exact ⟨_, rfl, by decide +kernel⟩

theorem run_second : ∃ result, run Os.step (looksAt (some .sha256)) afterFirst = (result, afterSecond) ∧
    Daemon.fsAnswer fileSides.codec.response result = .fsStat hashedStat := by
  unfold afterSecond
  exact ⟨_, rfl, by decide +kernel⟩

theorem run_third : ∃ result, run Os.step (looksAt (some .sha256)) afterSecond = (result, afterThird) ∧
    Daemon.fsAnswer fileSides.codec.response result = .fsStat hashedStat := by
  unfold afterThird
  exact ⟨_, rfl, by decide +kernel⟩

theorem served_verify : Served fileSides verifyTrace (Edit.remoteFile (str "hi")) afterThird := by
  obtain ⟨first, hfirst, hfirstAnswer⟩ := run_first
  obtain ⟨second, hsecond, hsecondAnswer⟩ := run_second
  obtain ⟨third, hthird, hthirdAnswer⟩ := run_third
  have hstate : (run Os.step (collectLocalTransferState fileSides.env true (Path.ofStr (str "/f"))) fileSides.host).1 =
      .ok fileState := rfl
  refine .cons (SameTree.refl _) ⟨SameTree.refl _, fun manifest hmanifest => ⟨[fileSource], ?_⟩⟩ ?_
  · exact Except.ok.inj hmanifest ▸ listed_file
  refine .cons (SameTree.refl _) ⟨looksAt none, first, rfl, hfirst, hfirstAnswer.symm⟩ ?_
  refine .cons (SameTree.refl _) ⟨SameTree.refl _, fun state hok => Except.ok.inj hok ▸ hstate⟩ ?_
  refine .cons (SameTree.refl _) ⟨looksAt (some .sha256), second, rfl, hsecond, hsecondAnswer.symm⟩ ?_
  refine .cons (SameTree.refl _) ⟨SameTree.refl _, fun state hok => Except.ok.inj hok ▸ hstate⟩ ?_
  exact .cons (SameTree.refl _) ⟨looksAt (some .sha256), third, rfl, hthird, hthirdAnswer.symm⟩ (.nil (SameTree.refl _))

theorem textBelow_file : TextBelow afterThird (.ofStr (str "/f")) := by
  have hnames : ∀ k x, afterThird.view k = some x → ∀ n ∈ k, isUtf8 n.1 = true := by
    intro k x hk
    exact @Os.forall_view afterThird (fun k _ => ∀ name ∈ k, isUtf8 name.1 = true) (by unfold afterThird; decide +kernel) k _ hk
  exact fun l top _ k x hk name hname => hnames (l ++ k) x hk name (List.mem_append_right l hname)

theorem push_report_true_file : ∃ rest, Begins fileSides.codec verifiesFile verifyTrace (.of [fileSource])
      [Path.ofStr (str "/f")] rest ∧
    SameTree (Edit.remoteFile (str "hi")) afterThird ∧
      Arrived fileSides.env.sha256 true afterThird (.ofStr (str "/f")) fileSource := by
  obtain ⟨remoteRoots, rest, hbegins, hlength, -, hskipped⟩ := push_report_true fileSides verifiesFile exec_verify
    served_verify listed_file.found (by decide)
  have hroots : Begins fileSides.codec verifiesFile verifyTrace (.of [fileSource]) [Path.ofStr (str "/f")]
      (verifyTrace.drop 2) := ⟨[⟨.request (.fsStat (str "/f") none), .ok (.fsStat plainStat)⟩], rfl, .call _ (.pure _)⟩
  obtain ⟨-, rfl, rfl⟩ := hbegins.unique hroots
  obtain ⟨hsame, harrived⟩ := hskipped rfl
  exact ⟨_, hbegins, hsame, harrived 0 fileSource _ rfl rfl good_file.text textBelow_file⟩

end Agent

end Client

end Rsdb
