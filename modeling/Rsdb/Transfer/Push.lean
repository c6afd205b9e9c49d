/-
# A push, from one side to the other

`execute_push_manifest` sends the request, waits for `PushBatchReady`, streams
the files and an eof frame, and waits for `PushBatchComplete`; the daemon
answers as `handle_push_batch` does. The two are put together over what each
has sent: the client's function takes the daemon's answers, the daemon's the
bytes of the client.

`push_reproduces_tree` says what is on the remote side afterwards: the old tree
with the sources over it at their root paths.
-/
import Rsdb.Transfer.Received

namespace Rsdb

open Prog (wp wp_bind wp_call wp_mono wp_iff_run)

/-! ### The client -/

namespace Client

/-- `RemoteControlError`, as it is shown. -/
def remoteControlError (code : ErrorCode) (message : Str) : AnyhowError :=
  ⟨str "remote error " ++ code.debug ++ str ": " ++ message, [.remote code]⟩

/-- What a push reports. -/
structure PushSummary where
  entriesWritten : ℕ
  bytesWritten : ℕ
  skipped : Bool
  verification : Option Str
  verified : Bool
  deriving DecidableEq

/-- What the client says when a source cannot be read or has changed. -/
def pushTexts : StreamTexts where
  openContext path := str "failed to open local file " ++ path.display
  changed expected read path :=
    str "local file changed during push: expected " ++ decimal expected ++ str " bytes, read " ++ decimal read ++
      str " from " ++ path.display

/-- `stream_local_batch_files`. -/
def streamLocalBatchFiles (files : List (BatchFileSource × ReadRun)) (stream : Bytes) :
    Except AnyhowError ℕ × Bytes := streamThrough clientRequestId pushTexts files stream

section

variable (codec : Codec)

/-- A response is read off the connection. -/
def readResponse (input : Bytes) : Except AnyhowError (ControlResponse × Bytes) :=
  match readFrame input with
  | (.error err, _) => .error ((AnyhowError.ofProtocol err).context (str "failed to read response"))
  | (.ok frame, left) =>
    match decodeJson codec.decodeResponse frame .response with
    | .error err => .error ((AnyhowError.ofProtocol err).context (str "failed to decode response"))
    | .ok response => .ok (response, left)

/-- A response of another kind than the one waited for. -/
def unexpectedResponse (response : ControlResponse) : AnyhowError :=
  .bail (str "unexpected response from daemon: " ++ codec.debug response)

/-- What `execute_push_manifest` makes of the last response. -/
def pushComplete (bytesSent : ℕ) : ControlResponse → Except AnyhowError PushSummary
  | .pushBatchComplete entriesWritten bytesWritten =>
    if bytesWritten ≠ bytesSent then
      .error (.bail (str "push size mismatch: daemon wrote " ++ decimal bytesWritten ++ str " bytes, sent " ++
        decimal bytesSent))
    else .ok ⟨entriesWritten, bytesWritten, false, none, false⟩
  | .error code message => .error (remoteControlError code message)
  | other => .error (unexpectedResponse codec other)

/-- `execute_push_manifest` once the daemon is ready: the outcome and what has
been sent. `answer` is what the daemon sends back to that. -/
def pushStream (manifest : BatchManifest) (runs : ℕ → ReadRun) (left : Bytes) (answer : Bytes → Bytes) :
    Except AnyhowError PushSummary × Bytes :=
  match streamLocalBatchFiles (opened manifest runs) [] with
  | (.error err, sent) => (.error err, sent)
  | (.ok bytesSent, sent) =>
    if bytesSent ≠ manifest.totalBytes then
      (.error (.bail (str "push size mismatch before completion: expected " ++ decimal manifest.totalBytes ++
        str " bytes, streamed " ++ decimal bytesSent)), sent)
    else
      match writeStreamFrame sent clientRequestId .file true [] with
      | (.error err, sent) =>
        (.error ((AnyhowError.ofProtocol err).context (str "failed to finish push stream")), sent)
      | (.ok (), sent) =>
        match readResponse codec (left ++ answer sent) with
        | .error err => (.error err, sent)
        | .ok (response, _) => (pushComplete codec bytesSent response, sent)

/-- `execute_push_manifest` with a daemon: what it sends back to the request,
and then to what follows, with what becomes of it. -/
def executePushManifest {σ : Type} (manifest : BatchManifest) (runs : ℕ → ReadRun) (remotePath : Str)
    (daemon : Bytes → Bytes × (Bytes → Bytes × σ)) : Except AnyhowError PushSummary × σ :=
  match writeJsonFrame [] .request clientRequestId
      (codec.request (.pushBatch remotePath manifest.roots manifest.entries)) with
  | (.error err, sent) => (.error (err.context (str "failed to send push request")), ((daemon sent).2 []).2)
  | (.ok (), request) =>
    let (ready, answer) := daemon request
    match readResponse codec ready with
    | .error err => (.error err, (answer []).2)
    | .ok (.pushBatchReady, left) =>
      let (result, sent) := pushStream codec manifest runs left fun sent => (answer sent).1
      (result, (answer sent).2)
    | .ok (.error code message, _) => (.error (remoteControlError code message), (answer []).2)
    | .ok (other, _) => (.error (unexpectedResponse codec other), (answer []).2)

end

end Client

/-! ### The daemon -/

namespace Daemon

section

variable (codec : Codec)

/-- What is sent for a response: nothing, if it does not fit a frame. -/
def responseBytes (requestId : UInt32) (response : ControlResponse) : Bytes :=
  (writeJsonFrame ([] : Bytes) .response requestId (codec.response response)).2

/-- How the daemon answers a push that failed. -/
def pushError (requestId : UInt32) (err : AnyhowError) : Bytes :=
  responseBytes codec requestId (.error .fileTransferFailed err.message)

/-- `handle_connection` for a `PushBatch`: `PushBatchReady` goes out when the
root paths are known, the outcome when the stream has been read. -/
def servePush (os : Os) (input : Bytes) : Bytes × (Bytes → Bytes × Os) :=
  match readFrame input with
  | (.error _, _) => ([], fun _ => ([], os))
  | (.ok frame, left) =>
    match decodeJson codec.decodeRequest frame .request with
    | .ok (.pushBatch destination roots entries) =>
      let requestId := frame.header.requestId
      match (Prog.run Os.step (resolveBatchDestinationRoots destination roots) os).1 with
      | .error err => (pushError codec requestId err, fun _ => ([], os))
      | .ok _ =>
        (responseBytes codec requestId .pushBatchReady, fun stream =>
          match Prog.run Os.step (handlePushBatch requestId destination roots entries (left ++ stream)) os with
          | (.ok response, os) => (responseBytes codec requestId response, os)
          | (.error err, os) => (pushError codec requestId err, os))
    | _ => ([], fun _ => ([], os))

end

end Daemon

/-- `execute_push_manifest` run against `handle_push_batch`. -/
def pushSession (codec : Codec) (os : Os) (manifest : BatchManifest) (runs : ℕ → ReadRun) (remotePath : Str) :
    Except AnyhowError Client.PushSummary × Os :=
  Client.executePushManifest codec manifest runs remotePath (Daemon.servePush codec os)

/-! ### The root paths -/

/-- The root paths of a batch for what is at the destination. -/
def rootPathsIn (os : Os) (destination : Str) (roots : List TransferRoot) : List Path :=
  match roots with
  | [root] =>
    [if os.isDirAt (Path.ofStr destination) = true ∨ endsWithSlash destination = true then
      root.under (Path.ofStr destination) else Path.ofStr destination]
  | roots => roots.map (TransferRoot.under (Path.ofStr destination))

theorem length_rootPathsIn (os : Os) (destination : Str) (roots : List TransferRoot) :
    (rootPathsIn os destination roots).length = roots.length := by
  unfold rootPathsIn
  split <;> simp

theorem rootPathsIn_of_length {os : Os} {destination : Str} {roots : List TransferRoot} (h : roots.length ≠ 1) :
    rootPathsIn os destination roots = roots.map (TransferRoot.under (Path.ofStr destination)) := by
  rcases roots with _ | ⟨root, _ | ⟨root', roots⟩⟩
  · rfl
  · exact absurd rfl h
  · rfl

theorem rootPathsAt_isDirAt {os : Os} {notDirectory destination : Str} {isDir : Option Bool}
    {roots : List TransferRoot} (hdir : isDir = some true ↔ os.isDirAt (Path.ofStr destination) = true)
    (hfile : isDir = some false → roots.length = 1) :
    rootPathsAt notDirectory (Path.ofStr destination) (endsWithSlash destination) isDir roots =
      .ok (rootPathsIn os destination roots) := by
  rcases roots with _ | ⟨root, _ | ⟨root', roots⟩⟩
  · have hno : isDir ≠ some false := fun h => by simpa using hfile h
    simp [rootPathsAt, rootPathsIn, hno]
  · simp only [rootPathsAt, rootPathsIn, hdir]
  · have hno : isDir ≠ some false := fun h => by simpa using hfile h
    simp [rootPathsAt, rootPathsIn, hno]

/-- The daemon takes the root paths for what it finds. -/
theorem resolveBatchDestinationRoots_ends {os : Os} {destination : Str} (hdest : destination ≠ [])
    {roots : List TransferRoot} (hne : roots ≠ []) (hnames : (roots.map TransferRoot.sourceName).Nodup)
    (hfile : ∀ l leaf, os.lookup true (Path.ofStr destination) = .ok (l, .inl leaf) → roots.length = 1) :
    Ends (fun rootPaths os' => os' = os ∧ rootPaths = rootPathsIn os destination roots)
      (Daemon.resolveBatchDestinationRoots destination roots) os := by
  have hdup : duplicateRoot [] roots = none := duplicateRoot_eq_none hnames (by simp)
  have hok : ∀ isDir, (isDir = some true ↔ os.isDirAt (Path.ofStr destination) = true) →
      (isDir = some false → roots.length = 1) →
      Ends (fun rootPaths os' => os' = os ∧ rootPaths = rootPathsIn os destination roots)
        (.ofExcept (rootPathsAt (str "remote destination is not a directory: " ++ destination)
          (Path.ofStr destination) (endsWithSlash destination) isDir roots)) os := by
    intro isDir hdir hlen
    rw [rootPathsAt_isDirAt hdir hlen]
    exact ⟨rfl, rfl⟩
  simp only [Daemon.resolveBatchDestinationRoots, hne, Daemon.ensureUniqueRootNames, hdup, hdest, ↓reduceIte,
    Prog.ofExcept_ok, Prog.pure_bind, resolveRoots, Act.stat, Prog.ask_bind]
  rw [Ends, wp_call, Os.step_stat]
  cases hl : os.lookup true (Path.ofStr destination) with
  | error e =>
    have hno : os.isDirAt (Path.ofStr destination) = false := by simp [Os.isDirAt, hl]
    simp only [Except.map, Except.mapError]
    split
    · exact hok none (by simp [hno]) (by simp)
    · exact (fromOs_ofIo (fun heq : e = _ => Os.lookup_error os true _ (heq ▸ hl))).context _
  | ok found =>
    obtain ⟨l, obj⟩ := found
    simp only [Except.map, Except.mapError]
    refine hok _ ?_ fun hfalse => ?_
    · cases obj with
      | inr mode => simp [Os.isDirAt, hl, Os.metadata, Obj.kind, Metadata.isDir]
      | inl leaf => cases leaf <;> simp [Os.isDirAt, hl, Os.metadata, Obj.kind, Metadata.isDir]
    · cases obj with
      | inr mode => simp [Os.metadata, Obj.kind, Metadata.isDir] at hfalse
      | inl leaf => exact hfile l leaf hl

/-! ### What the files give -/

/-- The file opens, and is read to its end. -/
structure ReadRun.Gives (run : ReadRun) (content : Bytes) : Prop where
  opened : run.opened = .ok ()
  ending : run.ending = .ok ()
  content : run.content = content

theorem readsMade_of_steady : ∀ {files : List (BatchFileSource × ReadRun)}, (∀ f ∈ files, Steady f) →
    readsMade files = files.flatMap fun f => f.2.chunks
  | [], _ => rfl
  | (file, run) :: rest, h => by
    obtain ⟨⟨hopened, hending, hsize⟩, hrest⟩ := List.forall_mem_cons.mp h
    simp only at hopened hending hsize
    simp only [readsMade, hopened, hending, hsize, ne_eq, not_true_eq_false, ↓reduceIte, readsMade_of_steady hrest,
      List.flatMap_cons]

/-- The reads that were made, item by item. -/
theorem reads_of_gives : ∀ {items : List Item} {runs : ℕ → ReadRun},
    (∀ i content, (items.filterMap Item.content?)[i]? = some content → (runs i).Gives content) →
    (∀ f ∈ (items.filterMap Item.file?).mapIdx fun i file => (file, runs i), Steady f) ∧
      ∃ readss, List.Forall₂ Item.ReadAs items readss ∧
        readss.flatten = ((items.filterMap Item.file?).mapIdx fun i file => (file, runs i)).flatMap fun f => f.2.chunks
  | [], _, _ => ⟨by simp, [], .nil, rfl⟩
  | item :: items, runs, h => by
    cases hc : item.content? with
    | none =>
      have hfile : item.file? = none := by rw [Item.file?, hc, Option.map_none]
      rw [List.filterMap_cons_none hc] at h
      obtain ⟨hsteady, readss, hreads, hflat⟩ := reads_of_gives h
      rw [List.filterMap_cons_none hfile]
      exact ⟨hsteady, [] :: readss, .cons ⟨by simp, by rw [hc]; rfl⟩ hreads, by simpa using hflat⟩
    | some content =>
      have hfile : item.file? = some ⟨item.path, content.length⟩ := by rw [Item.file?, hc, Option.map_some]
      rw [List.filterMap_cons_some hc] at h
      obtain ⟨hopened, hending, hcontent⟩ := h 0 content rfl
      obtain ⟨hsteady, readss, hreads, hflat⟩ := reads_of_gives
        fun i (content : Bytes) (hi : (items.filterMap Item.content?)[i]? = some content) =>
          h (i + 1) content (by simpa using hi)
      rw [List.filterMap_cons_some hfile, List.mapIdx_cons]
      refine ⟨?_, (runs 0).chunks :: readss, .cons ⟨(runs 0).sizes, by rw [hc]; exact hcontent⟩ hreads, ?_⟩
      · exact List.forall_mem_cons.mpr ⟨⟨hopened, hending, by rw [hcontent]⟩, hsteady⟩
      · rw [List.flatten_cons, List.flatMap_cons, hflat]

/-! ### Where the sources go -/

/-- Both files, or both directories. -/
def Obj.SameKind : Obj → Obj → Prop
  | .inl (.file _ _), .inl (.file _ _) => True
  | .inr _, .inr _ => True
  | _, _ => False

/-- An object of a source goes to a place. -/
def Goes (os : Os) (rootPaths : List Path) (sources : List Source) (k : Loc) (obj : Obj) : Prop :=
  ∃ (i : ℕ) (root : Path) (source : Source) (l : Loc), rootPaths[i]? = some root ∧ sources[i]? = some source ∧
    source.tree.view l = some obj ∧ k = os.place root ++ l

/-- A place on the way to a root path. -/
def OnTheWay (os : Os) (rootPaths : List Path) (k : Loc) : Prop :=
  ∃ root ∈ rootPaths, Os.Under (os.start root) root.comps k

/-- What is at a target is of the kind of its source, and what is on the way to
one is a directory, where there is something. -/
structure NoConflict (os : Os) (rootPaths : List Path) (sources : List Source) : Prop where
  above : ∀ k, OnTheWay os rootPaths k → ∀ leaf, os.view k ≠ some (.inl leaf)
  target : ∀ k obj old, Goes os rootPaths sources k obj → os.view k = some old → Obj.SameKind old obj

/-- The tree with the sources over it: each at its root path, directories on the
way where nothing was, and everything else as it was. -/
structure Reproduced (os os' : Os) (rootPaths : List Path) (sources : List Source) : Prop where
  there : ∀ k obj, Goes os rootPaths sources k obj → os'.view k = some (Obj.exact obj)
  parent : ∀ k, (∀ obj, ¬ Goes os rootPaths sources k obj) → OnTheWay os rootPaths k → os.view k = none →
    os'.view k = some (.inr (os.masked 0o777))
  other : ∀ k, (∀ obj, ¬ Goes os rootPaths sources k obj) → (OnTheWay os rootPaths k → os.view k ≠ none) →
    os'.view k = os.view k

theorem Source.ofStr_root_lossy {source : Source} {name : Name} (h : source.name? = some name) :
    Path.ofStr source.root.sourceName = Path.ofNames [lossyName name] := by
  have hname : source.root.sourceName = (lossyName name).1 := by
    rw [Source.root, h]
    rfl
  rw [hname]
  exact Path.ofStr_joinSlash [lossyName name]

theorem Source.ofStr_root {source : Source} {name : Name} (h : source.name? = some name) (htext : isUtf8 name.1 = true) :
    Path.ofStr source.root.sourceName = Path.ofNames [name] := by
  rw [Source.ofStr_root_lossy h, lossyName_of_isUtf8 htext]

/-- The root path of a source: the destination itself for a single one, or one
component more, its name. -/
theorem getElem?_rootPathsIn (os : Os) (destination : Str) {sources : List Source} {i : ℕ} {source : Source}
    (hs : sources[i]? = some source) {name : Name} (hname : source.name? = some name) (htext : isUtf8 name.1 = true) :
    ∃ root, (rootPathsIn os destination (sources.map Source.root))[i]? = some root ∧
      ((root = Path.ofStr destination ∧ sources.length = 1) ∨
        (root.abs = (Path.ofStr destination).abs ∧
          root.comps = (Path.ofStr destination).comps ++ [.normal name])) := by
  have hunder := TransferRoot.under_of_name (Path.ofStr destination) (Source.ofStr_root hname htext)
  rcases sources with _ | ⟨s, _ | ⟨s', rest⟩⟩
  · cases hs
  · cases i with
    | succ i => simp at hs
    | zero =>
      obtain rfl := Option.some.inj hs
      refine ⟨_, rfl, ?_⟩
      split
      · exact Or.inr hunder
      · exact Or.inl ⟨rfl, rfl⟩
  · refine ⟨source.root.under (Path.ofStr destination), ?_, Or.inr hunder⟩
    rw [rootPathsIn_of_length (by simp), List.getElem?_map, List.getElem?_map, hs]
    rfl

namespace Os

theorem place_of_comps {os : Os} {p q : Path} (habs : p.abs = q.abs) {names : List Name}
    (hcomps : p.comps = q.comps ++ names.map .normal) : os.place p = os.place q ++ names := by
  rw [place, place, start, start, habs, hcomps, placeOf_append, placeOf_names]

/-- A prefix of components and names: a proper prefix of the components, or
their place and some of the names. -/
theorem Above.of_append {l : Loc} {cs : List Comp} {names : List Name} {k : Loc}
    (h : Above l (cs ++ names.map .normal) k) :
    Under l cs k ∨ ∃ names', names' <+: names ∧ k = placeOf l cs ++ names' := by
  obtain ⟨ds, hds, rfl⟩ := h
  rcases List.prefix_or_prefix_of_prefix hds (List.prefix_append cs _) with hpre | ⟨t, rfl⟩
  · by_cases heq : ds = cs
    · exact Or.inr ⟨[], List.nil_prefix, by rw [heq, List.append_nil]⟩
    · exact Or.inl ⟨ds, hpre, heq, rfl⟩
  · rw [List.prefix_append_right_inj] at hds
    obtain ⟨s, hs⟩ := hds
    obtain ⟨ns, ms, hnames, rfl, -⟩ := List.map_eq_append_iff.mp hs.symm
    exact Or.inr ⟨ns, ⟨ms, hnames.symm⟩, by rw [placeOf_append, placeOf_names]⟩

end Os

section Targets

variable {os : Os} {destination : Str} {sources : List Source}

theorem Item.comps_target (root : Path) (item : Item) :
    (item.target root).abs = root.abs ∧ (item.target root).comps = root.comps ++ item.names.map .normal :=
  Path.comps_push item.names root

theorem Item.place_target (root : Path) (item : Item) :
    os.place (item.target root) = os.place root ++ item.names :=
  Os.place_of_comps (item.comps_target root).1 (item.comps_target root).2

/-- Different items go to different places. -/
theorem place_injective (hgood : ∀ s ∈ sources, s.Good) (hnames : (sources.map Source.name?).Nodup)
    {i j : ℕ} {s t : Source} (hi : sources[i]? = some s) (hj : sources[j]? = some t) {root root' : Path}
    (hroot : (rootPathsIn os destination (sources.map Source.root))[i]? = some root)
    (hroot' : (rootPathsIn os destination (sources.map Source.root))[j]? = some root') {l k : Loc}
    (h : os.place root ++ l = os.place root' ++ k) : i = j ∧ l = k := by
  have hsame : i = j → i = j ∧ l = k := by
    rintro rfl
    rw [hroot, Option.some.injEq] at hroot'
    rw [hroot'] at h
    exact ⟨rfl, List.append_cancel_left h⟩
  have hs := hgood s (List.mem_of_getElem? hi)
  have ht := hgood t (List.mem_of_getElem? hj)
  obtain ⟨name, hname⟩ := Option.isSome_iff_exists.mp hs.named
  obtain ⟨name', hname'⟩ := Option.isSome_iff_exists.mp ht.named
  obtain ⟨r, hr, hcase⟩ := getElem?_rootPathsIn os destination hi hname (hs.nameText name hname)
  obtain ⟨r', hr', hcase'⟩ := getElem?_rootPathsIn os destination hj hname' (ht.nameText name' hname')
  rw [hroot, Option.some.injEq] at hr
  rw [hroot', Option.some.injEq] at hr'
  subst hr hr'
  have hlen : sources.length = 1 → i = j := by
    intro hlen
    have hilt := (List.getElem?_eq_some_iff.mp hi).1
    have hjlt := (List.getElem?_eq_some_iff.mp hj).1
    omega
  rcases hcase with ⟨-, hone⟩ | ⟨habs, hcomps⟩
  · exact hsame (hlen hone)
  · rcases hcase' with ⟨-, hone⟩ | ⟨habs', hcomps'⟩
    · exact hsame (hlen hone)
    · rw [Os.place_of_comps habs (show _ = _ ++ [name].map Comp.normal from hcomps),
        Os.place_of_comps habs' (show _ = _ ++ [name'].map Comp.normal from hcomps'),
        List.append_assoc, List.append_assoc] at h
      have hn : name = name' := (List.cons.inj (List.append_cancel_left h)).1
      refine hsame ((List.getElem?_inj (by simpa using (List.getElem?_eq_some_iff.mp hi).1) hnames).mp ?_)
      rw [List.getElem?_map, List.getElem?_map, hi, hj, Option.map_some, Option.map_some, hname, hname', hn]

/-- The source and the root of an item. -/
theorem source_of_mem_items {rootPaths : List Path} (hlen : rootPaths.length = sources.length) {item : Item}
    (h : item ∈ manifestItems sources) :
    rootPaths[item.rootIndex]? = some (rootPaths.getD item.rootIndex .empty) ∧
      ∃ source, sources[item.rootIndex]? = some source ∧ source.tree.view item.names = some item.obj := by
  obtain ⟨i, source, hs, hitem⟩ := mem_itemsFrom.mp h
  obtain ⟨hindex, hview⟩ := Source.view_of_mem_items hitem
  rw [Nat.zero_add] at hindex
  have hlt : i < rootPaths.length := hlen ▸ (List.getElem?_eq_some_iff.mp hs).1
  rw [hindex]
  exact ⟨by rw [List.getD_eq_getElem?_getD, List.getElem?_eq_getElem hlt, Option.getD_some], source, hs, hview⟩

theorem goes_of_mem_items {rootPaths : List Path} (hlen : rootPaths.length = sources.length) {item : Item}
    (h : item ∈ manifestItems sources) :
    Goes os rootPaths sources (os.place (item.target (rootPaths.getD item.rootIndex .empty))) item.obj := by
  obtain ⟨hroot, source, hs, hview⟩ := source_of_mem_items hlen h
  exact ⟨_, _, source, item.names, hroot, hs, hview, item.place_target _⟩

theorem mem_items_of_goes {rootPaths : List Path} {k : Loc} {obj : Obj} (h : Goes os rootPaths sources k obj) :
    ∃ item ∈ manifestItems sources, item.obj = obj ∧
      k = os.place (item.target (rootPaths.getD item.rootIndex .empty)) := by
  obtain ⟨i, root, source, l, hroot, hs, hview, rfl⟩ := h
  obtain ⟨item, hitem, hindex, hnames, hobj⟩ := Source.mem_items_of_view hview i
  refine ⟨item, mem_itemsFrom.mpr ⟨i, source, hs, by rwa [Nat.zero_add]⟩, hobj, ?_⟩
  rw [item.place_target, hindex, hnames, List.getD_eq_getElem?_getD, hroot, Option.getD_some]

/-- Above a target are places on the way to its root, and targets. -/
theorem above_target {rootPaths : List Path} (hlen : rootPaths.length = sources.length) {item : Item}
    (h : item ∈ manifestItems sources) {k : Loc}
    (hk : Os.Above (os.start (item.target (rootPaths.getD item.rootIndex .empty)))
      (item.target (rootPaths.getD item.rootIndex .empty)).comps k) :
    OnTheWay os rootPaths k ∨ ∃ obj, Goes os rootPaths sources k obj := by
  obtain ⟨hroot, source, hs, hview⟩ := source_of_mem_items hlen h
  obtain ⟨habs, hcomps⟩ := item.comps_target (rootPaths.getD item.rootIndex .empty)
  rw [hcomps, Os.start, habs] at hk
  rcases hk.of_append with hunder | ⟨names, ⟨more, hnames⟩, rfl⟩
  · exact Or.inl ⟨_, List.mem_of_getElem? hroot, hunder⟩
  · rw [← hnames] at hview
    obtain ⟨obj, hobj⟩ := DirTree.exists_view_of_append hview
    exact Or.inr ⟨obj, _, _, source, names, hroot, hs, hobj, rfl⟩

/-- On the way to a root is above the target of the root itself. -/
theorem under_target_of_onTheWay {rootPaths : List Path} (hlen : rootPaths.length = sources.length) {k : Loc}
    (h : OnTheWay os rootPaths k) : ∃ item ∈ manifestItems sources,
      Os.Under (os.start (item.target (rootPaths.getD item.rootIndex .empty)))
        (item.target (rootPaths.getD item.rootIndex .empty)).comps k := by
  obtain ⟨root, hmem, hunder⟩ := h
  obtain ⟨i, hi⟩ := List.getElem?_of_mem hmem
  have hlt : i < sources.length := hlen ▸ (List.getElem?_eq_some_iff.mp hi).1
  have hview : sources[i].tree.view [] = some sources[i].tree.label := by rw [DirTree.view, DirTree.sub_nil]; rfl
  obtain ⟨item, hitem, hindex, hnames, -⟩ := Source.mem_items_of_view hview i
  refine ⟨item, mem_itemsFrom.mpr ⟨i, _, List.getElem?_eq_getElem hlt, by rwa [Nat.zero_add]⟩, ?_⟩
  have htarget : item.target (rootPaths.getD item.rootIndex .empty) = root := by
    rw [Item.target, hnames, hindex, List.getD_eq_getElem?_getD, hi, Option.getD_some]
    rfl
  rw [htarget]
  exact hunder

/-- Without conflicts there are only files and directories on the way to a target. -/
theorem NoConflict.regular {rootPaths : List Path} (h : NoConflict os rootPaths sources)
    (hlen : rootPaths.length = sources.length) :
    ∀ t ∈ targetsOf rootPaths (manifestItems sources), Receiver.Regular os t.1 := by
  intro t ht k hk leaf hleaf
  obtain ⟨item, hitem, rfl⟩ := List.mem_map.mp ht
  rcases above_target hlen hitem hk with hway | ⟨obj, hgoes⟩
  · exact absurd hleaf (h.above k hway leaf)
  · have hkind := h.target k obj _ hgoes hleaf
    cases leaf with
    | file mode content => exact ⟨mode, content, rfl⟩
    | symlink target => exact hkind.elim
    | other mode => exact hkind.elim

theorem targets_distinct (hgood : ∀ s ∈ sources, s.Good) (hnames : (sources.map Source.name?).Nodup) :
    (targetsOf (rootPathsIn os destination (sources.map Source.root)) (manifestItems sources)).Pairwise
      fun t u => os.place t.1 ≠ os.place u.1 := by
  have hlen : (rootPathsIn os destination (sources.map Source.root)).length = sources.length := by
    rw [length_rootPathsIn, List.length_map]
  rw [targetsOf, List.pairwise_map]
  refine (List.pairwise_map.mp (nodup_itemsFrom 0 sources)).imp_of_mem fun {a b} ha hb hne heq => hne ?_
  obtain ⟨hroot, s, hs, -⟩ := source_of_mem_items hlen ha
  obtain ⟨hroot', t, ht, -⟩ := source_of_mem_items hlen hb
  simp only [Item.place_target] at heq
  obtain ⟨hindex, hl⟩ := place_injective hgood hnames hs ht hroot hroot' heq
  rw [hindex, hl]

/-- All targets in place: the sources are reproduced. -/
theorem Overlaid.reproduced {os' : Os} {rootPaths : List Path} (hlen : rootPaths.length = sources.length)
    (h : Overlaid (targetsOf rootPaths (manifestItems sources)) os os') : Reproduced os os' rootPaths sources := by
  have htarget : ∀ k, (∀ obj, ¬ Goes os rootPaths sources k obj) →
      ∀ t ∈ targetsOf rootPaths (manifestItems sources), k ≠ os.place t.1 := by
    intro k hk t ht heq
    obtain ⟨item, hitem, rfl⟩ := List.mem_map.mp ht
    exact hk item.obj (heq ▸ goes_of_mem_items hlen hitem)
  refine ⟨fun k obj hgoes => ?_, fun k hk hway hnone => ?_, fun k hk hway => ?_⟩
  · obtain ⟨item, hitem, rfl, rfl⟩ := mem_items_of_goes hgoes
    exact h.self _ (List.mem_map_of_mem hitem)
  · obtain ⟨item, hitem, hunder⟩ := under_target_of_onTheWay hlen hway
    obtain ⟨mode, hdir⟩ := h.above _ (List.mem_map_of_mem hitem) k hunder
    rcases h.other k (htarget k hk) with heq | ⟨-, hnew, -⟩
    · rw [heq, hnone] at hdir
      cases hdir
    · exact hnew
  · rcases h.other k (htarget k hk) with heq | ⟨hnone, -, t, ht, hunder⟩
    · exact heq
    · obtain ⟨item, hitem, rfl⟩ := List.mem_map.mp ht
      rcases above_target hlen hitem hunder.above with hon | ⟨obj, hgoes⟩
      · exact absurd hnone (hway hon)
      · exact absurd hgoes (hk obj)

end Targets

/-! ### The daemon's run -/

theorem Receiver.expectFileStreamEof_eof (r : Receiver) (rest : Bytes) :
    r.expectFileStreamEof ((eofFrame r.requestId).bytes ++ rest) = .ok rest := by
  have hdec : decodeStreamFrameHeader (eofFrame r.requestId).header = .ok ⟨r.requestId, .file, true⟩ :=
    decodeStreamFrameHeader_mkFrame r.requestId .file true []
  simp only [expectFileStreamEof, readFileStreamChunk, readStreamFrameInto,
    readFrameInto_bytes (eofFrame_valid r.requestId), hdec]
  simp [eofFrame, mkFrame]

theorem pushReceiver_exact (requestId : UInt32) : (Daemon.pushReceiver requestId).Exact := by
  intro mode hne hmode
  have hand : (mode &&& 0o7777) = mode := hmode
  show normalizeMode mode = mode
  rw [normalizeMode, hand, if_neg hne]

section

variable {sources : List Source} (hne : sources ≠ []) (hgood : ∀ s ∈ sources, s.Good)
  (hnames : (sources.map Source.name?).Nodup) {destination : Str} (hdest : destination ≠ [])

theorem sourceNames_nodup (hlegible : ∀ s ∈ sources, s.Legible) (hnames : (sources.map Source.name?).Nodup) :
    ((sources.map Source.root).map TransferRoot.sourceName).Nodup := by
  rw [List.map_map]
  refine List.Nodup.map_on (fun s hs t ht heq => ?_) (List.Nodup.of_map _ hnames)
  obtain ⟨name, hname⟩ := Option.isSome_iff_exists.mp (hlegible s hs).named
  obtain ⟨name', hname'⟩ := Option.isSome_iff_exists.mp (hlegible t ht).named
  have hval : name.1 = name'.1 := by
    have hlossy : utf8Lossy name.1 = utf8Lossy name'.1 := by simpa [Source.root, hname, hname'] using heq
    rwa [utf8Lossy_of_isUtf8 ((hlegible s hs).nameText name hname),
      utf8Lossy_of_isUtf8 ((hlegible t ht).nameText name' hname')] at hlossy
  exact List.inj_on_of_nodup_map hnames hs ht (by rw [hname, hname', Subtype.ext hval])

include hne hgood hnames hdest in
/-- The daemon's handler with the frames of all files and the eof frame. -/
theorem handlePushBatch_ends (hfew : sources.length ≤ 2 ^ 32) (requestId : UInt32) {os : Os}
    (hclear : NoConflict os (rootPathsIn os destination (sources.map Source.root)) sources)
    {readss : List (List Bytes)} (hreads : List.Forall₂ Item.ReadAs (manifestItems sources) readss) :
    Ends (fun response os' =>
        response = .pushBatchComplete (manifestItems sources).length
          ((manifestItems sources).map fun i => i.entry.size).sum ∧
        Reproduced os os' (rootPathsIn os destination (sources.map Source.root)) sources)
      (Daemon.handlePushBatch requestId destination (sources.map Source.root)
        ((manifestItems sources).map Item.entry)
        (chunksBytes requestId readss.flatten ++ (eofFrame requestId).bytes)) os := by
  have hlen : (rootPathsIn os destination (sources.map Source.root)).length = sources.length := by
    rw [length_rootPathsIn, List.length_map]
  have hfile : ∀ l leaf, os.lookup true (Path.ofStr destination) = .ok (l, .inl leaf) →
      (sources.map Source.root).length = 1 := by
    intro l leaf hl
    by_contra hmany
    obtain ⟨s, hs⟩ := List.exists_mem_of_ne_nil sources hne
    obtain ⟨i, hi⟩ := List.getElem?_of_mem hs
    obtain ⟨name, hname⟩ := Option.isSome_iff_exists.mp (hgood s hs).named
    obtain ⟨root, hroot, ⟨-, hone⟩ | ⟨habs, hcomps⟩⟩ :=
      getElem?_rootPathsIn os destination hi hname ((hgood s hs).nameText name hname)
    · exact hmany (by rw [List.length_map, hone])
    · have hway : ∀ ds, ds <+: (Path.ofStr destination).comps →
          OnTheWay os (rootPathsIn os destination (sources.map Source.root))
            (placeOf (os.start (Path.ofStr destination)) ds) := by
        intro ds hds
        refine ⟨root, List.mem_of_getElem? hroot, ds, hcomps ▸ hds.trans (List.prefix_append _ _), ?_, ?_⟩
        · intro heq
          have := hds.length_le
          rw [heq, hcomps, List.length_append, List.length_singleton] at this
          omega
        · rw [Os.start, Os.start, habs]
      obtain ⟨hres, hview, -⟩ := Os.lookup_eq_ok hl
      obtain ⟨hloc, -⟩ := Os.resolve_plain (fun ds hds target => hclear.above _ (hway ds hds) _) hres
      have hl' : l = os.place (Path.ofStr destination) := hloc
      exact hclear.above _ (hl' ▸ hway _ List.prefix_rfl) leaf hview
  rw [Daemon.handlePushBatch, Ends, wp_bind]
  refine wp_mono (fun rootPaths os1 hresolved => ?_)
    (resolveBatchDestinationRoots_ends hdest (by simpa using hne)
      (sourceNames_nodup (fun s hs => (hgood s hs).legible) hnames) hfile)
  obtain ⟨rfl, rfl⟩ := hresolved
  have hitems : ∀ item ∈ manifestItems sources,
      item.rootIndex < (rootPathsIn os1 destination (sources.map Source.root)).length ∧ Obj.Plain item.obj ∧
        ∀ name ∈ item.names, isUtf8 name.1 = true := by
    intro item hitem
    obtain ⟨hroot, source, hs, hview⟩ := source_of_mem_items hlen hitem
    have hsource := hgood source (List.mem_of_getElem? hs)
    exact ⟨(List.getElem?_eq_some_iff.mp hroot).1, hsource.plain _ _ hview, hsource.text _ _ hview⟩
  have hentries := (Daemon.pushReceiver requestId).receiveEntries_ends (pushReceiver_exact requestId)
    (hlen.trans_le hfew) (eofFrame requestId).bytes hreads hitems 0 0 (hclear.regular hlen) (targets_distinct hgood hnames)
  rw [Receiver.receiveBatch, wp_bind, wp_bind]
  refine wp_mono (fun out os' hreceived => ?_) hentries
  obtain ⟨rfl, hoverlaid⟩ := hreceived
  have heof : (Daemon.pushReceiver requestId).expectFileStreamEof (eofFrame requestId).bytes = .ok [] := by
    have h := (Daemon.pushReceiver requestId).expectFileStreamEof_eof []
    rwa [List.append_nil] at h
  simp only [heof, Prog.ofExcept_ok, Prog.pure_bind]
  exact ⟨by rw [Nat.zero_add, Nat.zero_add], hoverlaid.reproduced hlen⟩

end

/-! ### Both sides -/

/-- What the session needs of the JSON texts: the request and the two responses
fit a frame and are read back, and the text of a request is no shorter than its list of
roots. -/
structure Codec.Carries (codec : Codec) (request : ControlRequest) (complete : ControlResponse) : Prop where
  requestFits : (codec.request request).length ≤ maxPayloadLen
  rootTexts : ∀ destination roots entries, request = .pushBatch destination roots entries →
    roots.length ≤ (codec.request request).length
  request : codec.decodeRequest (codec.request request) = .ok request
  readyFits : (codec.response .pushBatchReady).length ≤ maxPayloadLen
  ready : codec.decodeResponse (codec.response .pushBatchReady) = .ok .pushBatchReady
  completeFits : (codec.response complete).length ≤ maxPayloadLen
  complete : codec.decodeResponse (codec.response complete) = .ok complete

/-- A response is read as it was sent, and what follows it is left. -/
theorem readResponse_append {codec : Codec} {response : ControlResponse}
    (hfits : (codec.response response).length ≤ maxPayloadLen)
    (hdecode : codec.decodeResponse (codec.response response) = .ok response) (requestId : UInt32) (rest : Bytes) :
    Client.readResponse codec (Daemon.responseBytes codec requestId response ++ rest) = .ok (response, rest) := by
  have hread := readFrame_messageFrame hfits .response requestId rest
  have hjson := decodeJson_messageFrame hdecode .response requestId
  rw [Daemon.responseBytes, writeJsonFrame_of_le hfits, List.nil_append]
  simp only [Client.readResponse, hread, hjson]

theorem readResponse_responseBytes {codec : Codec} {response : ControlResponse}
    (hfits : (codec.response response).length ≤ maxPayloadLen)
    (hdecode : codec.decodeResponse (codec.response response) = .ok response) (requestId : UInt32) :
    Client.readResponse codec (Daemon.responseBytes codec requestId response) = .ok (response, []) := by
  have h := readResponse_append hfits hdecode requestId []
  rwa [List.append_nil] at h

/-- The bytes the client sends once the daemon is ready. -/
def Client.streamed (manifest : BatchManifest) (runs : ℕ → ReadRun) : Bytes :=
  (streamLocalBatchFiles (opened manifest runs) []).2 ++ (eofFrame clientRequestId).bytes

/-- No call of the operating system fails the daemon's handler. -/
def OsCallsSucceed (os : Os) (manifest : BatchManifest) (runs : ℕ → ReadRun) (destination : Str) : Prop :=
  ∀ err, (Prog.run Os.step (Daemon.handlePushBatch Client.clientRequestId destination manifest.roots
    manifest.entries (Client.streamed manifest runs)) os).1 = .error err → ¬ err.FromOs

theorem sum_sizes : ∀ items : List Item,
    (items.map fun i => i.entry.size).sum = ((items.filterMap Item.file?).map BatchFileSource.size).sum
  | [] => rfl
  | item :: items => by
    have ih := sum_sizes items
    rw [List.map_cons, List.sum_cons, ih]
    cases hc : item.content? with
    | none =>
      have hfile : item.file? = none := by rw [Item.file?, hc, Option.map_none]
      rw [List.filterMap_cons_none hfile, Item.entry, Item.entryAt, hc, Option.getD_none, List.length_nil, Nat.zero_add]
    | some content =>
      have hfile : item.file? = some ⟨item.path, content.length⟩ := by rw [Item.file?, hc, Option.map_some]
      rw [List.filterMap_cons_some hfile, List.map_cons, List.sum_cons, Item.entry, Item.entryAt, hc, Option.getD_some]

/-- A session in which the files are steady and the daemon's handler returns. -/
theorem pushSession_eq {codec : Codec} {os os' : Os} {manifest : BatchManifest} {runs : ℕ → ReadRun}
    {destination : Str} {entriesWritten : ℕ} (hsteady : ∀ f ∈ opened manifest runs, Steady f)
    (htotal : (manifest.files.map BatchFileSource.size).sum = manifest.totalBytes)
    (hcarries : codec.Carries (.pushBatch destination manifest.roots manifest.entries)
      (.pushBatchComplete entriesWritten manifest.totalBytes))
    (hroots : ∃ rootPaths, (Prog.run Os.step (Daemon.resolveBatchDestinationRoots destination manifest.roots) os).1 =
      .ok rootPaths)
    (hrun : Prog.run Os.step (Daemon.handlePushBatch Client.clientRequestId destination manifest.roots
      manifest.entries (Client.streamed manifest runs)) os =
        (.ok (.pushBatchComplete entriesWritten manifest.totalBytes), os')) :
    pushSession codec os manifest runs destination =
      (.ok ⟨entriesWritten, manifest.totalBytes, false, none, false⟩, os') := by
  obtain ⟨rootPaths, hroots⟩ := hroots
  have hreq := readFrame_messageFrame hcarries.requestFits .request Client.clientRequestId []
  rw [List.append_nil] at hreq
  have hjson := decodeJson_messageFrame hcarries.request .request Client.clientRequestId
  have hid : (messageFrame .request Client.clientRequestId
      (codec.request (.pushBatch destination manifest.roots manifest.entries))).header.requestId =
        Client.clientRequestId := rfl
  -- what the daemon answers
  have hserve : Daemon.servePush codec os (messageFrame .request Client.clientRequestId
      (codec.request (.pushBatch destination manifest.roots manifest.entries))).bytes =
        (Daemon.responseBytes codec Client.clientRequestId .pushBatchReady, fun stream =>
          match Prog.run Os.step (Daemon.handlePushBatch Client.clientRequestId destination manifest.roots
            manifest.entries stream) os with
          | (.ok response, os) => (Daemon.responseBytes codec Client.clientRequestId response, os)
          | (.error err, os) => (Daemon.pushError codec Client.clientRequestId err, os)) := by
    simp only [Daemon.servePush, hreq, hjson, hid, hroots, List.nil_append]
  -- what the client sends
  have hfailure := (streamFailure_eq_none Client.pushTexts (opened manifest runs)).mpr hsteady
  have hstream : Client.streamLocalBatchFiles (opened manifest runs) [] = (.ok manifest.totalBytes,
      (Client.streamLocalBatchFiles (opened manifest runs) []).2) := by
    have h := streamThrough_of_steady Client.clientRequestId Client.pushTexts hfailure []
    rw [opened_sizes, htotal] at h
    rw [Client.streamLocalBatchFiles, h]
  have hready := readResponse_responseBytes hcarries.readyFits hcarries.ready Client.clientRequestId
  have hcomplete := readResponse_responseBytes hcarries.completeFits hcarries.complete Client.clientRequestId
  have hclient : Client.pushStream codec manifest runs [] (fun sent =>
      (match Prog.run Os.step (Daemon.handlePushBatch Client.clientRequestId destination manifest.roots
            manifest.entries sent) os with
          | (.ok response, os) => (Daemon.responseBytes codec Client.clientRequestId response, os)
          | (.error err, os) => (Daemon.pushError codec Client.clientRequestId err, os)).1) =
        (.ok ⟨entriesWritten, manifest.totalBytes, false, none, false⟩, Client.streamed manifest runs) := by
    rw [Client.pushStream, hstream]
    simp only [ne_eq, not_true_eq_false, ↓reduceIte, writeEof]
    rw [← Client.streamed, hrun]
    simp only [List.nil_append, hcomplete, Client.pushComplete, ne_eq, not_true_eq_false, ↓reduceIte]
  have hsend := writeJsonFrame_of_le hcarries.requestFits .request Client.clientRequestId []
  rw [List.nil_append] at hsend
  rw [pushSession, Client.executePushManifest, hsend]
  simp only [hserve, hready, hclient, hrun]

/-- A push whose files do not give what the manifest says fails, whatever the
daemon does. -/
theorem executePushManifest_error (codec : Codec) {σ : Type} {manifest : BatchManifest} {runs : ℕ → ReadRun}
    (destination : Str) (daemon : Bytes → Bytes × (Bytes → Bytes × σ)) {err : AnyhowError}
    (h : streamFailure Client.pushTexts (opened manifest runs) = some err) :
    ∃ err, (Client.executePushManifest codec manifest runs destination daemon).1 = .error err := by
  have hfst := streamThrough_fst Client.clientRequestId Client.pushTexts (opened manifest runs) []
  rw [h] at hfst
  have hstream : ∀ left answer, (Client.pushStream codec manifest runs left answer).1 = .error err := by
    intro left answer
    rw [Client.pushStream, Client.streamLocalBatchFiles]
    rcases hs : streamThrough Client.clientRequestId Client.pushTexts (opened manifest runs) [] with ⟨r, sent⟩
    rw [hs] at hfst
    simp only at hfst
    rw [hfst]
  rw [Client.executePushManifest]
  rcases writeJsonFrame [] .request Client.clientRequestId
    (codec.request (.pushBatch destination manifest.roots manifest.entries)) with ⟨r, request⟩
  cases r with
  | error e => exact ⟨_, rfl⟩
  | ok u =>
    simp only
    split
    · exact ⟨_, rfl⟩
    · exact ⟨err, hstream _ _⟩
    · exact ⟨_, rfl⟩
    · exact ⟨_, rfl⟩

section

variable {sources : List Source} (hne : sources ≠ []) (hgood : ∀ s ∈ sources, s.Good)
  (hnames : (sources.map Source.name?).Nodup) {destination : Str} (hdest : destination ≠ [])

include hne hgood hnames hdest in
/-- A push of steady files in which the remote operating system does not fail. -/
theorem pushSession_reproduces (codec : Codec) {os : Os} {runs : ℕ → ReadRun}
    (hclear : NoConflict os (rootPathsIn os destination (sources.map Source.root)) sources)
    (hgives : ∀ i content, ((manifestItems sources).filterMap Item.content?)[i]? = some content →
      (runs i).Gives content)
    (hcarries : codec.Carries
      (.pushBatch destination (manifestOf sources).roots (manifestOf sources).entries)
      (.pushBatchComplete (manifestOf sources).entries.length (manifestOf sources).totalBytes))
    (hos : OsCallsSucceed os (manifestOf sources) runs destination) :
    ∃ os', pushSession codec os (manifestOf sources) runs destination =
        (.ok ⟨(manifestOf sources).entries.length, (manifestOf sources).totalBytes, false, none, false⟩, os') ∧
      Reproduced os os' (rootPathsIn os destination (sources.map Source.root)) sources := by
  obtain ⟨hall, readss, hreads, hflat⟩ := reads_of_gives hgives
  have hfew : sources.length ≤ 2 ^ 32 := by
    have htexts := (hcarries.rootTexts _ _ _ rfl).trans hcarries.requestFits
    rw [manifestOf, List.length_map] at htexts
    exact htexts.trans (by decide)
  have hsteady : ∀ f ∈ opened (manifestOf sources) runs, Steady f := hall
  have hfailure := (streamFailure_eq_none Client.pushTexts _).mpr hsteady
  have hstreamed : Client.streamed (manifestOf sources) runs =
      chunksBytes Client.clientRequestId readss.flatten ++ (eofFrame Client.clientRequestId).bytes := by
    rw [Client.streamed, Client.streamLocalBatchFiles,
      streamThrough_of_steady Client.clientRequestId Client.pushTexts hfailure [], readsMade_of_steady hsteady,
      List.nil_append, hflat]
    rfl
  have hends := handlePushBatch_ends hne hgood hnames hdest hfew Client.clientRequestId hclear hreads
  obtain ⟨hok, herr⟩ := wp_iff_run.mp hends
  rw [OsCallsSucceed, hstreamed] at hos
  rcases hrun : Prog.run Os.step (Daemon.handlePushBatch Client.clientRequestId destination (sources.map Source.root)
    ((manifestItems sources).map Item.entry)
    (chunksBytes Client.clientRequestId readss.flatten ++ (eofFrame Client.clientRequestId).bytes)) os with ⟨r, os'⟩
  cases r with
  | error err => exact absurd (herr err os' hrun) (hos err (congrArg Prod.fst hrun))
  | ok response =>
    obtain ⟨hresponse, hreproduced⟩ := hok response os' hrun
    refine ⟨os', pushSession_eq hsteady rfl hcarries ?_ ?_, hreproduced⟩
    · rw [Daemon.handlePushBatch, Prog.run_bind_ok] at hrun
      obtain ⟨rootPaths, t, hroots, -⟩ := hrun
      exact ⟨rootPaths, congrArg Prod.fst hroots⟩
    · rw [hstreamed]
      have hcomplete : response = .pushBatchComplete (manifestOf sources).entries.length
          (manifestOf sources).totalBytes := by
        rw [hresponse, sum_sizes, manifestOf, List.length_map]
      exact hcomplete ▸ hrun

end

/-- **A push reproduces the tree.** For plain sources with distinct names the
client builds a manifest, and with any remote tree without conflicts, whatever
the reads of the files are, a push ends in success unless a call of the remote
operating system fails: all entries and all bytes are counted, and the remote
tree is the old one with the sources over it, where no two names share a file. If a
file gives another number of bytes than the manifest says, the push fails, whatever the
daemon does. -/
theorem push_reproduces_tree (codec : Codec) {sources : List Source} (hne : sources ≠ [])
    (hgood : ∀ s ∈ sources, s.Good) (hnames : (sources.map Source.name?).Nodup) {destination : Str}
    (hdest : destination ≠ []) :
    ∃ manifest, Client.buildLocalBatchManifest sources = .ok manifest ∧
      (∀ (os : Os) (runs : ℕ → ReadRun),
        NoConflict os (rootPathsIn os destination manifest.roots) sources →
        (∀ i content, ((manifestItems sources).filterMap Item.content?)[i]? = some content →
          (runs i).Gives content) →
        codec.Carries (.pushBatch destination manifest.roots manifest.entries)
          (.pushBatchComplete manifest.entries.length manifest.totalBytes) →
        OsCallsSucceed os manifest runs destination →
        ∃ os', pushSession codec os manifest runs destination =
            (.ok ⟨manifest.entries.length, manifest.totalBytes, false, none, false⟩, os') ∧
          Reproduced os os' (rootPathsIn os destination manifest.roots) sources) ∧
      ∀ (σ : Type) (runs : ℕ → ReadRun) (daemon : Bytes → Bytes × (Bytes → Bytes × σ)),
        (∃ i file, manifest.files[i]? = some file ∧ (runs i).content.length ≠ file.size) →
        ∃ err, (Client.executePushManifest codec manifest runs destination daemon).1 = .error err := by
  have hunique : Client.manifestTexts.uniqueRootNames (sources.map Source.root) = .ok () := by
    show Client.ensureUniqueRootNames _ = _
    have hnodup := sourceNames_nodup (fun s hs => (hgood s hs).legible) hnames
    rw [Client.ensureUniqueRootNames, duplicateRoot_eq_none hnodup (by simp)]
  refine ⟨manifestOf sources, buildBatchManifest_eq Client.manifestTexts (fun s hs => (hgood s hs).listed) hunique, ?_, ?_⟩
  · intro os runs hclear hgives hcarries hos
    exact pushSession_reproduces hne hgood hnames hdest codec hclear hgives hcarries hos
  · intro σ runs daemon ⟨i, file, hfile, hsize⟩
    cases hf : streamFailure Client.pushTexts (opened (manifestOf sources) runs) with
    | some err => exact executePushManifest_error codec destination daemon hf
    | none =>
      have hmem : (file, runs i) ∈ opened (manifestOf sources) runs := by
        refine List.mem_of_getElem? (i := i) ?_
        rw [opened, List.getElem?_mapIdx, hfile]
        rfl
      exact absurd ((streamFailure_eq_none _ _).mp hf _ hmem).2.2 hsize

theorem isName_f : IsName (str "f") := by decide

/-- A directory with one file. -/
def pushedDirectory : Source where
  path := Path.ofStr (str "d")
  place := []
  tree := .dir 0o755 [(⟨str "f", isName_f⟩, .leaf (.file 0o640 (str "hi")))]
  ordered := .ofDir _ _ (by simp [DirTree.NamesOrdered]) fun c hc => by
    rw [List.mem_singleton.mp hc]
    exact .ofLeaf _

theorem byteReads_sizes : ∀ c ∈ [str "h", str "i"], 0 < c.length ∧ c.length ≤ defaultStreamChunkSize := by decide

/-- The file is read byte by byte. -/
def byteReads : ReadRun := ⟨.ok (), [str "h", str "i"], .ok (), byteReads_sizes⟩

theorem push_reproduces_directory :
    let request : ControlRequest := .pushBatch (str "/in") (manifestOf [pushedDirectory]).roots
      (manifestOf [pushedDirectory]).entries
    let codec := Codec.documented [request] [.pushBatchReady, .pushBatchComplete 2 2]
    ∃ os', pushSession codec .fresh (manifestOf [pushedDirectory]) (fun _ => byteReads) (str "/in") =
        (.ok ⟨2, 2, false, none, false⟩, os') ∧
      Reproduced .fresh os' [Path.ofStr (str "/in")] [pushedDirectory] := by
  intro request codec
  have hgood : ∀ s ∈ [pushedDirectory], s.Good := by
    intro s hs
    rw [List.mem_singleton.mp hs]
    exact ⟨(plainTree_iff pushedDirectory.ordered).mpr (by decide), by decide, by decide,
      textTree_of_preorder pushedDirectory.ordered (by decide)⟩
  obtain ⟨manifest, hbuild, hpush, -⟩ := push_reproduces_tree codec (List.cons_ne_nil pushedDirectory [])
    hgood (by decide) (show str "/in" ≠ [] by decide)
  have hmanifest : Client.buildLocalBatchManifest [pushedDirectory] = .ok (manifestOf [pushedDirectory]) := rfl
  obtain rfl := Except.ok.inj (hmanifest.symm.trans hbuild)
  have hroots : rootPathsIn .fresh (str "/in") (manifestOf [pushedDirectory]).roots = [Path.ofStr (str "/in")] := by
    decide +kernel
  have hpush := hpush .fresh fun _ => byteReads
  rw [hroots] at hpush
  have hplace : Os.place .fresh (Path.ofStr (str "/in")) = [⟨str "in", by decide⟩] := by decide
  have hnothing : ∀ l : Loc, Os.view .fresh (⟨str "in", by decide⟩ :: l) = none := fun _ => rfl
  refine hpush ⟨?_, ?_⟩ ?_ ?_ ?_
  · rintro k ⟨root, hroot, ds, hds, hne, rfl⟩ leaf
    rw [List.mem_singleton.mp hroot] at hds hne ⊢
    have hnil : ds = [] := by
      rcases List.prefix_concat_iff.mp (show ds <+: [] ++ [Comp.normal ⟨str "in", by decide⟩] from hds) with h | h
      · exact absurd h hne
      · exact List.prefix_nil.mp h
    have hroot : Os.view .fresh (placeOf (Os.start .fresh (Path.ofStr (str "/in"))) []) = some (.inr 0o755) := by
      decide
    rw [hnil, hroot]
    simp
  · rintro k obj old ⟨i, root, source, l, hroot, hs, hview, rfl⟩ hold
    rw [List.mem_singleton.mp (List.mem_of_getElem? hroot), hplace] at hold
    cases (hnothing l).symm.trans hold
  · intro i content hi
    rcases i with _ | i
    · obtain rfl := Option.some.inj hi
      exact ⟨rfl, rfl, rfl⟩
    · cases hi
  · refine ⟨by decide +kernel, fun destination roots entries heq => ?_, by decide +kernel, by decide +kernel,
      by decide +kernel, by decide +kernel, by decide +kernel⟩
    obtain ⟨-, rfl, -⟩ := ControlRequest.pushBatch.inj heq
    decide +kernel
  · have hok : (Prog.run Os.step (Daemon.handlePushBatch Client.clientRequestId (str "/in")
        (manifestOf [pushedDirectory]).roots (manifestOf [pushedDirectory]).entries
        (Client.streamed (manifestOf [pushedDirectory]) fun _ => byteReads)) .fresh).1.isOk = true := by
      decide +kernel
    intro err herr
    rw [herr] at hok
    cases hok

end Rsdb
