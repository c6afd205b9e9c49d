/-
# The other side of an agent command

What a run of an agent command comes to on the other side: each of its calls is served
there before the next one. A request that is answered has been handled to its end; one
that fails may have been cut short anywhere, and its handler is gone when the next call
is made. A push that succeeds has been received whole, from files that give what the
client's filesystem has; that filesystem does not change.

What only looks leaves the tree as it is, so a run comes to what its changing calls come
to (`Served.changesOf`). The files of a source that was found give what the source has
(`gives_of_steady`).
-/
import Rsdb.Client.AgentPush
import Rsdb.Client.Edit
import Rsdb.Transfer.FreshRoot

namespace Rsdb

open Prog (run Reaches reaches_run)
open Os (SameTree below)

/-! ### What is read from a source -/

/-- Wherever looking stops, the tree is as it is. -/
theorem sameTree_of_reaches {α : Type} {x : Act α} (h : Prog.All Call.ReadsOnly x) {s t : Os}
    (hreaches : Reaches Os.step x s t) : SameTree s t := by
  induction hreaches with
  | start x s => exact SameTree.refl s
  | @call c k s t _ ih => exact (Os.step_readsOnly h.1 s).trans (ih (h.2 _))

/-- A path to a file below a directory leads to the file, if it leads anywhere. -/
theorem Os.view_of_lookup_below {os : Os} {path : Path} {place : Loc} {top obj obj' : Obj}
    (hpath : os.lookup false path = .ok (place, top)) {names : List Name} (hview : os.view (place ++ names) = some obj)
    (hplain : ∀ target, obj ≠ .inl (.symlink target)) {l : Loc}
    (h : os.lookup true (names.foldl Path.push path) = .ok (l, obj')) : obj' = obj := by
  cases hnames : names with
  | nil =>
    subst hnames
    rw [List.append_nil, (Os.lookup_eq_ok hpath).2.1] at hview
    obtain rfl := Option.some.inj hview
    have hfollow : os.lookup true path = os.lookup false path := Os.lookup_follow fun l' target heq => by
      rw [hpath] at heq
      exact hplain target (Prod.mk.inj (Except.ok.inj heq)).2
    rw [List.foldl_nil, hfollow, hpath] at h
    exact (Prod.mk.inj (Except.ok.inj h)).2.symm
  | cons n rest =>
    have hne : names ≠ [] := by simp [hnames]
    have hdirs : Os.DirsAbove os place names := by
      intro pre hpre hneq
      obtain ⟨tail, rfl⟩ := hpre
      cases tail with
      | nil => exact absurd (List.append_nil pre).symm hneq
      | cons m tail =>
        rw [← List.append_assoc, List.append_cons] at hview
        obtain ⟨obj, hobj⟩ := DirTree.exists_view_of_append hview
        exact DirTree.exists_dir_of_view hobj
    obtain ⟨mode, hdir⟩ := hdirs [] List.nil_prefix (by simp [hnames])
    rw [List.append_nil, (Os.lookup_eq_ok hpath).2.1] at hdir
    obtain rfl := Option.some.inj hdir
    have hleads := Os.leads_of_lookup (Os.lookup_of_dir hpath)
    have hbelow : names.foldl Path.push path = below path names := rfl
    rw [hbelow] at h
    have hresolve := (Os.lookup_eq_ok h).1
    by_cases hsearch : Os.Searchable os place names
    · have hfound := Os.resolve_below hleads hne hdirs hsearch
        (fun target heq => hplain target (Option.some.inj (hview.symm.trans heq))) true
      rw [Bool.true_or, hfound, Os.foundAt, hview] at hresolve
      injection hresolve with hresolve
      injection hresolve with hl hobj
      exact hobj.symm
    · rw [Bool.true_or, Os.resolve_below_denied hleads hdirs hsearch] at hresolve
      cases hresolve

namespace Client

section

variable {os : Os}

theorem statSource_eq_ok {path : Path} {source : Source} (h : statSource os path = .ok source) :
    source.path = path ∧ (∃ top, os.lookup false path = .ok (source.place, top)) ∧
      ∀ k, os.view (source.place ++ k) = source.tree.view k := SourceErrors.statSource_eq_ok h

/-- The manifest that goes with a push. -/
def LocalBatchManifest.shared (manifest : LocalBatchManifest) : BatchManifest where
  roots := manifest.roots
  entries := manifest.entries
  files := manifest.files.map fun file => ⟨file.path, file.size⟩
  totalBytes := manifest.totalBytes.toNat

/-- What goes out when the files give what the items have. -/
theorem streamed_of_gives {manifest : BatchManifest} {items : List Item} (hfiles : manifest.files = items.filterMap Item.file?)
    {runs : ℕ → ReadRun}
    (hgives : ∀ i content, (items.filterMap Item.content?)[i]? = some content → (runs i).Gives content) :
    ∃ readss, List.Forall₂ Item.ReadAs items readss ∧
      streamed manifest runs = chunksBytes clientRequestId readss.flatten ++ (eofFrame clientRequestId).bytes := by
  obtain ⟨hall, readss, hreads, hflat⟩ := reads_of_gives hgives
  rw [← hfiles] at hall hflat
  have hsteady : ∀ f ∈ opened manifest runs, Steady f := hall
  refine ⟨readss, hreads, ?_⟩
  rw [streamed, streamLocalBatchFiles, streamThrough_of_steady clientRequestId pushTexts
    ((streamFailure_eq_none pushTexts _).mpr hsteady) [], readsMade_of_steady hsteady, List.nil_append, hflat]
  rfl

/-- The sources that are pushed, and the manifest of them. -/
structure PushSources (glob : Str → Except AnyhowError (List Path)) (os : Os) (specs : List Str)
    (manifest : LocalBatchManifest) (sources : List Source) : Prop where
  found : expandLocalSources glob os specs = .ok sources
  built : LocalBatchManifest.build sources = .ok manifest

/-- What a walk through a list comes to has all come from it. -/
theorem exists_of_mapM {α β ε : Type} {f : α → Except ε β} : ∀ {as : List α} {bs : List β}, as.mapM f = .ok bs →
    ∀ b ∈ bs, ∃ a ∈ as, f a = .ok b
  | [], bs, h => by
    obtain rfl := Except.ok.inj h
    exact fun b hb => absurd hb List.not_mem_nil
  | a :: as, bs, h => by
    rw [List.mapM_cons] at h
    obtain ⟨b, hb, h⟩ := ok_of_bind h
    obtain ⟨bs', hbs, h⟩ := ok_of_bind h
    obtain rfl := Except.ok.inj h
    refine List.forall_mem_cons.mpr ⟨⟨a, List.mem_cons_self, hb⟩, fun b' hb' => ?_⟩
    obtain ⟨a', ha', hf⟩ := exists_of_mapM hbs b' hb'
    exact ⟨a', List.mem_cons_of_mem a ha', hf⟩

theorem exists_statSource {glob : Str → Except AnyhowError (List Path)} {specs : List Str} {sources : List Source}
    (hfound : expandLocalSources glob os specs = .ok sources) {source : Source} (hsource : source ∈ sources) :
    ∃ path, statSource os path = .ok source := by
  unfold expandLocalSources at hfound
  obtain ⟨paths, -, hsources⟩ := ok_of_bind hfound
  obtain ⟨path, -, hpath⟩ := exists_of_mapM hsources source hsource
  exact ⟨path, hpath⟩

namespace Agent

/-! ### Serving a call -/

/-- What the two sides have beside the filesystem that changes: the environment of the handlers, the texts of the
frames, what a local pattern matches, and the client's filesystem. -/
structure Sides where
  env : Daemon.FsEnv
  codec : Codec
  localGlob : Str → Except AnyhowError (List Path)
  host : Os

/-- Each file is opened and read to its end. -/
def Sides.Steady (sides : Sides) (manifest : LocalBatchManifest) (runs : ℕ → ReadRun) : Prop :=
  ∀ (i : ℕ) (file : LocalBatchFile), manifest.files[i]? = some file → ∃ l mode content,
    sides.host.lookup true file.path = .ok (l, .inl (.file mode content)) ∧ (runs i).Gives content

section

variable (sides : Sides)

/-- A call that is answered takes the other side from one state to another. -/
def Serves : (c : AgentCall) → c.Answer → Os → Os → Prop
  | .buildManifest specs, answer, s, t => SameTree s t ∧ ∀ manifest, answer = .ok manifest →
      ∃ sources, PushSources sides.localGlob sides.host specs manifest sources
  | .localState root includeHash, answer, s, t => SameTree s t ∧ ∀ state, answer = .ok state →
      (run Os.step (collectLocalTransferState sides.env includeHash root) sides.host).1 = .ok state
  | .localRoots _ _, _, s, t | .pull _ _, _, s, t | .clock, _, s, t => SameTree s t
  | .request request, .ok response, s, t => ∃ operation result, Daemon.fsOperation sides.env request = some operation ∧
      run Os.step operation s = (result, t) ∧ response = Daemon.fsAnswer sides.codec.response result
  | .request request, .error _, s, t => ∃ operation, Daemon.fsOperation sides.env request = some operation ∧
      Reaches Os.step operation s t
  | .push manifest remotePath, .ok _, s, t => ∃ runs response, sides.Steady manifest runs ∧
      run Os.step (Daemon.handlePushBatch clientRequestId remotePath manifest.roots manifest.entries
        (streamed manifest.shared runs)) s = (.ok response, t)
  | .push manifest remotePath, .error _, s, t => ∃ requestId input,
      Reaches Os.step (Daemon.handlePushBatch requestId remotePath manifest.roots manifest.entries input) s t

/-- The calls in turn. -/
inductive Served : AgentTrace → Os → Os → Prop where
  | nil {s t : Os} (h : SameTree s t) : Served [] s t
  | cons {c : AgentCall} {r : c.Answer} {rest : AgentTrace} {s s' t t' : Os} (h : SameTree s s')
      (hserves : Serves sides c r s' t) (hrest : Served rest t t') : Served (⟨c, r⟩ :: rest) s t'

end

section

variable {sides : Sides} {s t t' : Os}

/-- A request is served to its end or cut short. -/
theorem reaches_of_serves {request : ControlRequest} {answer : Except CommandError ControlResponse}
    (h : Serves sides (.request request) answer s t) : ∃ operation, Daemon.fsOperation sides.env request = some operation ∧
      Reaches Os.step operation s t := by
  cases answer with
  | error err => exact h
  | ok response =>
    obtain ⟨operation, result, hknown, hrun, -⟩ := h
    refine ⟨operation, hknown, ?_⟩
    have hreaches := @reaches_run _ _ _ _ _ Os.step operation s
    rwa [hrun] at hreaches

/-- A push is received to its end or cut short. -/
theorem reaches_of_serves_push {manifest : LocalBatchManifest} {remotePath : Str} {answer : Except CommandError PushSummary}
    (h : Serves sides (.push manifest remotePath) answer s t) : ∃ requestId input,
      Reaches Os.step (Daemon.handlePushBatch requestId remotePath manifest.roots manifest.entries input) s t := by
  cases answer with
  | error err => exact h
  | ok summary =>
    obtain ⟨runs, response, -, hrun⟩ := h
    refine ⟨clientRequestId, streamed manifest.shared runs, ?_⟩
    have hreaches := @reaches_run _ _ _ _ _ Os.step (Daemon.handlePushBatch clientRequestId remotePath manifest.roots
      manifest.entries (streamed manifest.shared runs)) s
    rwa [hrun] at hreaches

/-- What is not among the changes leaves the tree as it is. -/
theorem sameTree_of_serves {c : AgentCall} {r : c.Answer} (hlooks : c.changes = false) (h : Serves sides c r s t) :
    SameTree s t := by
  cases c with
  | buildManifest specs => exact h.1
  | localState root includeHash => exact h.1
  | localRoots destination roots => exact h
  | pull specs destination => exact h
  | clock => exact h
  | push manifest remotePath => cases hlooks
  | request request =>
    obtain ⟨operation, hknown, hreaches⟩ := reaches_of_serves h
    have hquery : Daemon.IsQuery request := by
      cases request
      case fsStat | fsList => trivial
      all_goals cases hlooks
    exact sameTree_of_reaches (Daemon.fsOperation_readsOnly hquery hknown) hreaches

theorem Served.after {trace : AgentTrace} (hsame : SameTree s t) (h : Served sides trace t t') : Served sides trace s t' := by
  cases h with
  | nil h => exact .nil (hsame.trans h)
  | cons h hserves hrest => exact .cons (hsame.trans h) hserves hrest

theorem Served.append {b : AgentTrace} : ∀ {a : AgentTrace} {s t' : Os}, Served sides (a ++ b) s t' →
    ∃ t, Served sides a s t ∧ Served sides b t t'
  | [], s, _, h => ⟨s, .nil (SameTree.refl s), h⟩
  | ⟨_, _⟩ :: _, _, _, .cons h hserves hrest => by
    obtain ⟨t, ha, hb⟩ := hrest.append
    exact ⟨t, .cons h hserves ha, hb⟩

theorem Served.andSame (hsame : SameTree t t') : ∀ {trace : AgentTrace} {s : Os}, Served sides trace s t →
    Served sides trace s t'
  | [], _, .nil h => .nil (h.trans hsame)
  | ⟨_, _⟩ :: _, _, .cons h hserves hrest => .cons h hserves (hrest.andSame hsame)

/-- A run comes to what its changes come to. -/
theorem Served.changesOf : ∀ {trace : AgentTrace} {s t : Os}, Served sides trace s t →
    Served sides (Agent.changesOf trace) s t
  | [], _, _, h => h
  | ⟨c, r⟩ :: trace, _, _, .cons h hserves hrest => by
    cases hchanges : c.changes with
    | true =>
      rw [changesOf_changing hchanges]
      exact .cons h hserves hrest.changesOf
    | false =>
      rw [changesOf_looking hchanges]
      exact hrest.changesOf.after (h.trans (sameTree_of_serves hchanges hserves))

/-- What has changed nothing has left the tree as it was. -/
theorem sameTree_of_quiet {trace : AgentTrace} (hquiet : Agent.changesOf trace = []) (h : Served sides trace s t) :
    SameTree s t := by
  have hall := h.changesOf
  rw [hquiet] at hall
  cases hall with
  | nil hsame => exact hsame

/-- What is changed behind calls that change nothing. -/
theorem Served.later {looked later : AgentTrace} (h : Served sides (looked ++ later) s t)
    (hquiet : Agent.changesOf looked = []) : Served sides (Agent.changesOf later) s t := by
  have hserved := h.changesOf
  rwa [changesOf_append, hquiet, List.nil_append] at hserved

/-- The files of a source that was found give what the source has. -/
theorem gives_of_steady {path : Path} {source : Source} (hfound : statSource sides.host path = .ok source)
    {runs : ℕ → ReadRun} (hsteady : sides.Steady (.of [source]) runs) (i : ℕ) (content : Bytes)
    (hi : ((manifestItems [source]).filterMap Item.content?)[i]? = some content) : (runs i).Gives content := by
  obtain ⟨rfl, ⟨top, hlookup⟩, hview⟩ := statSource_eq_ok hfound
  set pairs := (source.items 0).filterMap fun item => item.content?.map fun content => (item, content) with hpairs
  have hcontents : (manifestItems [source]).filterMap Item.content? = pairs.map Prod.snd := by
    rw [manifestItems, itemsFrom, itemsFrom, List.append_nil, hpairs, List.map_filterMap]
    refine List.filterMap_congr fun item _ => ?_
    rw [Option.map_map]
    exact Option.map_id'.symm
  have hfiles : (LocalBatchManifest.of [source]).files =
      pairs.map fun pair => ⟨0, pair.1.path, pair.2.length⟩ := by
    show filesOf source 0 ++ [] = _
    rw [List.append_nil, filesOf, hpairs, List.map_filterMap, List.map_filterMap]
    refine List.filterMap_congr fun item _ => ?_
    rw [Item.file?, Option.map_map, Option.map_map]
    rfl
  rw [hcontents, List.getElem?_map, Option.map_eq_some_iff] at hi
  obtain ⟨⟨item, content'⟩, hpair, rfl⟩ := hi
  obtain ⟨l, mode, given, hgiven, hgives⟩ := hsteady i ⟨0, item.path, content'.length⟩ (by
    rw [hfiles, List.getElem?_map, hpair]
    rfl)
  obtain ⟨item', hitem, heq⟩ := List.mem_filterMap.mp (List.mem_of_getElem? hpair)
  obtain ⟨content, hcontent, heq⟩ := Option.map_eq_some_iff.mp heq
  obtain ⟨rfl, rfl⟩ := Prod.mk.inj heq
  have hitemview := hview item'.names
  rw [(Source.view_of_mem_items hitem).2] at hitemview
  have hobj : ∃ mode, item'.obj = .inl (.file mode content) := by
    unfold Item.content? at hcontent
    split at hcontent
    · rename_i mode content' hobj
      exact ⟨mode, by rw [hobj, Option.some.inj hcontent]⟩
    · cases hcontent
  obtain ⟨mode', hobj⟩ := hobj
  have hpath : item'.path = item'.names.foldl Path.push source.path := by
    obtain ⟨place, -, rfl⟩ := List.mem_map.mp hitem
    rfl
  rw [hpath] at hgiven
  have hsame := Os.view_of_lookup_below hlookup hitemview (fun target htarget => by rw [hobj] at htarget; cases htarget) hgiven
  rw [hobj] at hsame
  cases hsame
  exact hgives

end

end Agent

end

end Client

end Rsdb
