/-
# A pull, from one side to the other

`execute_pull` sends the request, takes the metadata, fills the destination from
the file stream as `receive_local_batch` does, and compares what it has received
with `PullBatchComplete`; the daemon answers as `handle_pull_batch` does
(`Daemon.pullBatchRequest`). The daemon's answer is all it sends, so the session
is a program of the client over its own operating system.

A directory gets its permission bits before its entries are received, and a file
that is there is opened again for writing. `pull_reproduces_iff` says for a
client that is not root which bits a pull into a directory needs.
-/
import Rsdb.Daemon.PullBatch
import Rsdb.Transfer.Laid
import Rsdb.Transfer.Push

namespace Rsdb

open Os (ownerWrite ownerSearch)

/-! ### The sources -/

/-- Both sides have it. -/
def hasGlobPattern (value : Str) : Bool := value.any fun byte => byte = 42 ∨ byte = 63 ∨ byte = 91

/-- What a side says of a source that it cannot stat, of a pattern that matches nothing,
and of a path at which there is nothing. -/
structure SourceErrors where
  unreadable : Path → IoErrorKind → AnyhowError
  noMatch : Str → AnyhowError
  missing : Path → IoErrorKind → AnyhowError

/-- A source that is there, with the tree it leads to: a link at its end is not followed. -/
def SourceErrors.statSource (errors : SourceErrors) (os : Os) (path : Path) : Except AnyhowError Source :=
  match os.lookup false path with
  | .error e => .error (errors.unreadable path e)
  | .ok (place, _) =>
    match os.sub place with
    | none => .error (errors.unreadable path .notFound)
    | some tree => .ok ⟨path, place, tree.1, tree.2⟩

/-- The paths of one source: a pattern stands for what it matches, in order,
unless there is something of that name. `glob` is what the pattern matches. -/
def SourceErrors.expandSource (errors : SourceErrors) (glob : Str → Except AnyhowError (List Path)) (os : Os) (spec : Str) :
    Except AnyhowError (List Path) :=
  let literal := Path.ofStr spec
  match hasGlobPattern spec, os.lookup true literal with
  | true, .error _ => do
    let paths ← glob spec
    if paths = [] then .error (errors.noMatch spec) else .ok paths
  | _, .ok _ => .ok [literal]
  | false, .error e => .error (errors.missing literal e)

/-- What is found at a path is the tree there. -/
theorem SourceErrors.statSource_eq_ok {errors : SourceErrors} {os : Os} {path : Path} {source : Source}
    (h : errors.statSource os path = .ok source) :
    source.path = path ∧ (∃ top, os.lookup false path = .ok (source.place, top)) ∧
      ∀ k, os.view (source.place ++ k) = source.tree.view k := by
  unfold SourceErrors.statSource at h
  split at h
  · cases h
  · rename_i place top hlookup
    split at h
    · cases h
    · rename_i tree hsub
      obtain rfl := Except.ok.inj h
      rw [Os.sub, Option.pmap_eq_some_iff] at hsub
      obtain ⟨t, _, ht, heq⟩ := hsub
      obtain rfl := congrArg Subtype.val heq
      exact ⟨rfl, ⟨top, hlookup⟩, DirTree.view_of_sub ht⟩

/-! ### The daemon -/

namespace Daemon

/-- What the daemon says of a source it cannot find. -/
def sourceErrors : SourceErrors where
  unreadable path e := (AnyhowError.ofIo e.toError).context (str "failed to stat remote path " ++ path.display)
  noMatch spec := .ofIo ⟨.notFound, str "remote pattern matched no paths: " ++ spec⟩
  missing path e := (AnyhowError.ofIo e.toError).context (str "failed to stat remote path " ++ path.display)

/-- A source of a pull. -/
def statSource (os : Os) (path : Path) : Except AnyhowError Source := sourceErrors.statSource os path

/-- The paths of one source of a pull. -/
def expandSource (glob : Str → Except AnyhowError (List Path)) (os : Os) (spec : Str) : Except AnyhowError (List Path) :=
  sourceErrors.expandSource glob os spec

/-- `expand_remote_sources`, and the trees there. -/
def expandRemoteSources (glob : Str → Except AnyhowError (List Path)) (os : Os) (specs : List Str) :
    Except AnyhowError (List Source) := do
  let paths ← specs.mapM (expandSource glob os)
  paths.flatten.mapM (statSource os)

/-- `handle_connection` for a `PullBatch`: all that is sent back. -/
def servePull (codec : Codec) (glob : Str → Except AnyhowError (List Path)) (os : Os) (runs : ℕ → ReadRun)
    (input : Bytes) : Bytes :=
  match readFrame input with
  | (.error _, _) => []
  | (.ok frame, _) =>
    match decodeJson codec.decodeRequest frame .request with
    | .ok (.pullBatch specs) =>
      let manifest := (expandRemoteSources glob os specs).bind buildBatchManifestFromSources
      (pullBatchRequest codec.response frame.header.requestId manifest runs []).2
    | _ => []

end Daemon

/-! ### The client -/

namespace Client

/-- What a pull reports. -/
structure PullSummary where
  entriesReceived : ℕ
  bytesReceived : ℕ
  totalBytes : ℕ
  verification : Option Str
  verified : Bool
  roots : List TransferRoot
  entries : List TransferEntry
  deriving DecidableEq

section

variable (codec : Codec)

/-- What `execute_pull` makes of the last response. -/
def pullComplete (roots : List TransferRoot) (entries : List TransferEntry)
    (totalBytes entriesReceived bytesReceived : ℕ) : ControlResponse → Except AnyhowError PullSummary
  | .pullBatchComplete entriesSent bytesSent =>
    if entriesSent ≠ entriesReceived then
      .error (.bail (str "pull entry mismatch: daemon sent " ++ decimal entriesSent ++ str " entries, received " ++
        decimal entriesReceived))
    else if bytesSent ≠ bytesReceived then
      .error (.bail (str "pull size mismatch: daemon sent " ++ decimal bytesSent ++ str " bytes, received " ++
        decimal bytesReceived))
    else .ok ⟨entriesReceived, bytesReceived, totalBytes, none, false, roots, entries⟩
  | .error code message => .error (remoteControlError code message)
  | other => .error (unexpectedResponse codec other)

/-- `execute_pull` from the first response on, with what follows it. -/
def receivePull (localDestination : Str) : ControlResponse → Bytes → Act PullSummary
  | .pullBatchMetadata roots entries totalBytes, left => do
    let (entriesReceived, bytesReceived, left) ← receiveLocalBatch localDestination roots entries left
    let (response, _) ← .ofExcept (readResponse codec left)
    .ofExcept (pullComplete codec roots entries totalBytes entriesReceived bytesReceived response)
  | .error code message, _ => .fail (remoteControlError code message)
  | other, _ => .fail (unexpectedResponse codec other)

/-- `execute_pull`, with all that the daemon sends back to the request. -/
def executePull (remoteSources : List Str) (localDestination : Str) (daemon : Bytes → Bytes) : Act PullSummary :=
  match writeJsonFrame [] .request clientRequestId (codec.request (.pullBatch remoteSources)) with
  | (.error err, _) => .fail (err.context (str "failed to send pull request"))
  | (.ok (), request) => do
    let (response, left) ← .ofExcept (readResponse codec (daemon request))
    receivePull codec localDestination response left

end

end Client

/-- `execute_pull` run against `handle_pull_batch`, on the client's operating system. -/
def pullSession (codec : Codec) (glob : Str → Except AnyhowError (List Path)) (remote : Os) (runs : ℕ → ReadRun)
    (specs : List Str) (destination : Str) (os : Os) : Except AnyhowError Client.PullSummary × Os :=
  Prog.run Os.step (Client.executePull codec specs destination (Daemon.servePull codec glob remote runs)) os

/-! ### What is sent -/

/-- The error of a metadata response that does not fit a frame. -/
def tooLarge (codec : Codec) (manifest : BatchManifest) : ControlResponse :=
  .error .fileTransferFailed
    (ProtocolError.payloadTooLarge (codec.response (Daemon.metadataResponse manifest)).length).display

/-- What the session needs of the JSON texts: they are read back, the last response
fits a frame, and the text of the metadata is no shorter than its list of roots. -/
structure Codec.CarriesPull (codec : Codec) (specs : List Str) (manifest : BatchManifest) : Prop where
  request : codec.decodeRequest (codec.request (.pullBatch specs)) = .ok (.pullBatch specs)
  metadata : codec.decodeResponse (codec.response (Daemon.metadataResponse manifest)) =
    .ok (Daemon.metadataResponse manifest)
  rootTexts : manifest.roots.length ≤ (codec.response (Daemon.metadataResponse manifest)).length
  tooLarge : codec.decodeResponse (codec.response (tooLarge codec manifest)) = .ok (tooLarge codec manifest)
  complete : codec.decodeResponse (codec.response (.pullBatchComplete manifest.entries.length manifest.totalBytes)) =
    .ok (.pullBatchComplete manifest.entries.length manifest.totalBytes)
  completeFits : Daemon.Fits codec.response (.pullBatchComplete manifest.entries.length manifest.totalBytes)

/-- Metadata that fits a frame is of few enough roots. -/
theorem Codec.CarriesPull.few {codec : Codec} {specs : List Str} {sources : List Source}
    (h : codec.CarriesPull specs (manifestOf sources))
    (hfits : Daemon.Fits codec.response (Daemon.metadataResponse (manifestOf sources))) : sources.length ≤ 2 ^ 32 := by
  have hroots : (manifestOf sources).roots.length = sources.length := List.length_map _
  exact hroots ▸ (h.rootTexts.trans hfits).trans (by decide)

/-- All that the daemon sends for steady files. -/
def sentForPull (codec : Codec) (requestId : UInt32) (manifest : BatchManifest) (runs : ℕ → ReadRun) : Bytes :=
  Daemon.responseBytes codec requestId (Daemon.metadataResponse manifest) ++
    (chunksBytes requestId (readsMade (opened manifest runs)) ++ ((eofFrame requestId).bytes ++
      Daemon.responseBytes codec requestId (.pullBatchComplete manifest.entries.length manifest.totalBytes)))

theorem responseBytes_of_fits {codec : Codec} {response : ControlResponse} (h : Daemon.Fits codec.response response)
    (requestId : UInt32) :
    Daemon.responseBytes codec requestId response = (Daemon.responseFrame codec.response requestId response).bytes := by
  rw [Daemon.responseBytes, Daemon.writeJsonFrame_of_fits codec.response requestId h, List.nil_append]

theorem pullBatchRequest_of_steady {codec : Codec} {requestId : UInt32} {manifest : BatchManifest} {runs : ℕ → ReadRun}
    (hmeta : Daemon.Fits codec.response (Daemon.metadataResponse manifest))
    (hcomplete : Daemon.Fits codec.response (.pullBatchComplete manifest.entries.length manifest.totalBytes))
    (htotal : (manifest.files.map BatchFileSource.size).sum = manifest.totalBytes)
    (hsteady : ∀ f ∈ opened manifest runs, Steady f) :
    (Daemon.pullBatchRequest codec.response requestId (.ok manifest) runs []).2 =
      sentForPull codec requestId manifest runs := by
  have hfailure := (streamFailure_eq_none Daemon.pullTexts _).mpr hsteady
  have hterminal : Daemon.terminalResponse codec.response (.ok manifest) runs =
      .pullBatchComplete manifest.entries.length manifest.totalBytes := by
    have hnone : Daemon.pullFailure codec.response (.ok manifest) runs = none := by
      have hnot : ¬ (codec.response (.pullBatchComplete manifest.entries.length manifest.totalBytes)).length >
          maxPayloadLen := not_lt.mpr hcomplete
      simp only [Daemon.pullFailure, hfailure, htotal, ne_eq, not_true_eq_false, ↓reduceIte, hnot]
    unfold Daemon.terminalResponse
    simp only [hnone, htotal]
  have hstream := streamThrough_of_steady requestId Daemon.pullTexts hfailure
    (Daemon.responseFrame codec.response requestId (Daemon.metadataResponse manifest)).bytes
  rw [opened_sizes, htotal] at hstream
  rw [Daemon.pullBatchRequest_snd codec.response requestId (by rintro m ⟨⟩; exact hmeta), hterminal, if_pos hcomplete,
    sentForPull, responseBytes_of_fits hmeta, responseBytes_of_fits hcomplete]
  simp only [Daemon.beforeTerminal, Daemon.streamBatchFiles, hstream, ne_eq, not_true_eq_false, ↓reduceIte,
    List.append_assoc]

theorem pullBatchRequest_too_large {codec : Codec} {requestId : UInt32} {manifest : BatchManifest}
    {runs : ℕ → ReadRun} (hmeta : ¬ Daemon.Fits codec.response (Daemon.metadataResponse manifest)) :
    (Daemon.pullBatchRequest codec.response requestId (.ok manifest) runs []).2 =
      Daemon.responseBytes codec requestId (tooLarge codec manifest) := by
  rw [Daemon.pullBatchRequest, Daemon.handlePullBatch, Daemon.writeJsonFrame_of_not_fits codec.response requestId hmeta]
  rfl

section

variable {codec : Codec} {glob : Str → Except AnyhowError (List Path)} {remote : Os} {specs : List Str}
  {sources : List Source}
  (hfound : Daemon.expandRemoteSources glob remote specs = .ok sources)
  (hlegible : ∀ s ∈ sources, s.Legible) (hnames : (sources.map Source.name?).Nodup)

include hfound hlegible hnames in
/-- What the daemon sends back to the request. -/
theorem servePull_eq (runs : ℕ → ReadRun) (hfits : (codec.request (.pullBatch specs)).length ≤ maxPayloadLen)
    (hdecode : codec.decodeRequest (codec.request (.pullBatch specs)) = .ok (.pullBatch specs)) :
    Daemon.servePull codec glob remote runs
        (messageFrame .request Client.clientRequestId (codec.request (.pullBatch specs))).bytes =
      (Daemon.pullBatchRequest codec.response Client.clientRequestId (.ok (manifestOf sources)) runs []).2 := by
  have hread := readFrame_messageFrame hfits .request Client.clientRequestId []
  rw [List.append_nil] at hread
  have hjson := decodeJson_messageFrame hdecode .request Client.clientRequestId
  have hunique : Daemon.manifestTexts.uniqueRootNames (sources.map Source.root) = .ok () := by
    show Daemon.ensureUniqueRootNames _ = _
    rw [Daemon.ensureUniqueRootNames, duplicateRoot_eq_none (sourceNames_nodup hlegible hnames) (by simp)]
  have hbuild : (Daemon.expandRemoteSources glob remote specs).bind Daemon.buildBatchManifestFromSources =
      .ok (manifestOf sources) := by
    rw [hfound]
    exact buildBatchManifest_eq Daemon.manifestTexts (fun s hs => (hlegible s hs).toListed) hunique
  simp only [Daemon.servePull, hread, hjson, hbuild]
  rfl

end

/-! ### What the client does with it -/

theorem pullReceiver_exact : Client.pullReceiver.Exact := fun _ _ h => h

/-- The root paths below a destination that is a directory. -/
theorem run_resolveLocalBatchRoots {os : Os} {destination : Str} {dir : Loc} {mode : ℕ}
    (hdest : os.lookup true (Path.ofStr destination) = .ok (dir, .inr mode)) (roots : List TransferRoot)
    (hne : roots ≠ []) (hdup : duplicateRoot [] roots = none) :
    Prog.run Os.step (Client.resolveLocalBatchRoots destination roots) os =
      (.ok (roots.map (TransferRoot.under (Path.ofStr destination))), os) := by
  have hpaths : ∀ text, rootPathsAt text (Path.ofStr destination) (endsWithSlash destination) (some true) roots =
      .ok (roots.map (TransferRoot.under (Path.ofStr destination))) := by
    intro text
    rcases roots with _ | ⟨root, _ | ⟨root', roots⟩⟩
    · exact absurd rfl hne
    · simp [rootPathsAt]
    · simp [rootPathsAt]
  have hisDir : ∀ l, (os.metadata l (.inr mode)).isDir = true := fun _ => rfl
  simp only [Client.resolveLocalBatchRoots, hne, Client.ensureUniqueRootNames, hdup, ↓reduceIte, Prog.ofExcept_ok,
    Prog.pure_bind, resolveRoots, Act.stat, Prog.ask_bind, Prog.run_call, Os.step_stat, hdest, Except.map,
    Except.mapError, hisDir, hpaths, Prog.run_pure]

theorem TransferRoot.under_eq_below (base : Path) {root : TransferRoot} {name : Name}
    (hname : Path.ofStr root.sourceName = Path.ofNames [name]) : root.under base = Os.below base [name] := by
  rw [TransferRoot.under, hname, Path.join_ofNames base (List.cons_ne_nil name [])]
  rfl

theorem foldl_push_below (base : Path) : ∀ (more names : List Name),
    more.foldl Path.push (Os.below base names) = Os.below base (names ++ more)
  | [], names => by rw [List.foldl_nil, List.append_nil]
  | n :: more, names => by
    have hpush : (Os.below base names).push n = Os.below base (names ++ [n]) := by simp [Path.push, Os.below]
    rw [List.foldl_cons, hpush, foldl_push_below base more, List.append_assoc, List.singleton_append]

section

variable {sources : List Source} (hgood : ∀ s ∈ sources, s.Good)

include hgood in
/-- An item goes below the destination. -/
theorem target_below (hfew : sources.length ≤ 2 ^ 32) (base : Path) : ∀ item ∈ manifestItems sources, ∃ root,
    ((sources.map Source.root).map (TransferRoot.under base))[item.entry.rootIndex]? = some root ∧
      item.target root = Os.below base (item.full sources) := by
  intro item hitem
  obtain ⟨source, name, hof⟩ := exists_of hgood hitem
  have htext := (hgood source (List.mem_of_getElem? hof.get)).nameText name hof.named
  have hlt := (List.getElem?_eq_some_iff.mp hof.get).1
  refine ⟨source.root.under base, ?_, ?_⟩
  · rw [Item.rootIndex_entry (by omega), List.getElem?_map, List.getElem?_map, hof.get]
    rfl
  · rw [TransferRoot.under_eq_below base (Source.ofStr_root hof.named htext), Item.target, foldl_push_below, hof.full]
    rfl

variable {codec : Codec} {glob : Str → Except AnyhowError (List Path)} {remote : Os} {specs : List Str}
  {runs : ℕ → ReadRun}

include hgood in
/-- The client receives all of a steady pull exactly when the bits permit every item. -/
theorem receiveLocalBatch_decides (hne : sources ≠ []) (hfew : sources.length ≤ 2 ^ 32) {os : Os} {destination : Str} {dir : Loc} {mode : ℕ}
    (hdest : os.lookup true (Path.ofStr destination) = .ok (dir, .inr mode))
    (hset : Setting os (Path.ofStr destination) dir sources) {readss : List (List Bytes)}
    (hreads : List.Forall₂ Item.ReadAs (manifestItems sources) readss) (rest : Bytes) :
    Decides (∀ item ∈ manifestItems sources, item.Permitted os dir sources)
      (fun out os' => out = ((manifestOf sources).entries.length, (manifestOf sources).totalBytes, rest) ∧
        Laid os os' dir sources (manifestItems sources))
      (Client.receiveLocalBatch destination (manifestOf sources).roots (manifestOf sources).entries
        (chunksBytes Client.clientRequestId readss.flatten ++ ((eofFrame Client.clientRequestId).bytes ++ rest))) os := by
  have hroots := run_resolveLocalBatchRoots hdest (sources.map Source.root) (by simpa using hne)
    (duplicateRoot_eq_none (sourceNames_nodup (fun s hs => (hgood s hs).legible) hset.distinct) (by simp))
  have hentries := Client.pullReceiver.receiveEntries_decides pullReceiver_exact hset
    (target_below hgood hfew (Path.ofStr destination)) ((eofFrame Client.clientRequestId).bytes ++ rest) hreads
    (List.nil_append _).symm 0 0 (Laid.nil os dir sources)
  have heof := Client.pullReceiver.expectFileStreamEof_eof rest
  have hbatch : Decides (∀ item ∈ manifestItems sources, item.Permitted os dir sources)
      (fun out os' => out = ((manifestOf sources).entries.length, (manifestOf sources).totalBytes, rest) ∧
        Laid os os' dir sources (manifestItems sources))
      (Client.pullReceiver.receiveBatch ((sources.map Source.root).map (TransferRoot.under (Path.ofStr destination)))
        (manifestOf sources).entries
        (chunksBytes Client.clientRequestId readss.flatten ++ ((eofFrame Client.clientRequestId).bytes ++ rest))) os := by
    have hbind := hentries.bind (D := True)
      (f := fun out => Prog.ofExcept (Client.pullReceiver.expectFileStreamEof out.2.2) >>= fun input =>
        pure (out.1, out.2.1, input))
      (R := fun out os' => out = ((manifestOf sources).entries.length, (manifestOf sources).totalBytes, rest) ∧
        Laid os os' dir sources (manifestItems sources)) fun out os' hreceived => by
          obtain ⟨hout, hlaid⟩ := hreceived
          have hinput : Client.pullReceiver.expectFileStreamEof out.2.2 = .ok rest := by rw [hout]; exact heof
          rw [hinput]
          refine Decides.pure ⟨?_, hlaid⟩
          rw [hout, sum_sizes, Nat.zero_add, Nat.zero_add, manifestOf, List.length_map]
    rwa [and_true] at hbind
  have hall := (Decides.of_run hroots).bind (f := fun rootPaths => Client.pullReceiver.receiveBatch rootPaths
    (manifestOf sources).entries (chunksBytes Client.clientRequestId readss.flatten ++
      ((eofFrame Client.clientRequestId).bytes ++ rest))) fun rootPaths os' hresolved => by
        rw [hresolved.1, hresolved.2]
        exact hbatch
  rwa [true_and] at hall

include hgood in
/-- The session with steady files: it returns exactly when the request and the
metadata fit their frames and the bits permit every item. -/
theorem pullSession_decides (hne : sources ≠ []) (hfound : Daemon.expandRemoteSources glob remote specs = .ok sources)
    (hcarries : codec.CarriesPull specs (manifestOf sources)) {os : Os} {destination : Str} {dir : Loc} {mode : ℕ}
    (hdest : os.lookup true (Path.ofStr destination) = .ok (dir, .inr mode))
    (hset : Setting os (Path.ofStr destination) dir sources)
    (hgives : ∀ i content, ((manifestItems sources).filterMap Item.content?)[i]? = some content →
      (runs i).Gives content) :
    Decides ((codec.request (.pullBatch specs)).length ≤ maxPayloadLen ∧
        Daemon.Fits codec.response (Daemon.metadataResponse (manifestOf sources)) ∧
        ∀ item ∈ manifestItems sources, item.Permitted os dir sources)
      (fun summary os' => summary = ⟨(manifestOf sources).entries.length, (manifestOf sources).totalBytes,
          (manifestOf sources).totalBytes, none, false, (manifestOf sources).roots, (manifestOf sources).entries⟩ ∧
        Laid os os' dir sources (manifestItems sources))
      (Client.executePull codec specs destination (Daemon.servePull codec glob remote runs)) os := by
  by_cases hreq : (codec.request (.pullBatch specs)).length ≤ maxPayloadLen
  · have hsend := writeJsonFrame_of_le hreq .request Client.clientRequestId []
    have hserve := servePull_eq hfound (fun s hs => (hgood s hs).legible) hset.distinct runs hreq hcarries.request
    rw [List.nil_append] at hsend
    rw [Client.executePull, hsend]
    simp only [hserve]
    by_cases hmeta : Daemon.Fits codec.response (Daemon.metadataResponse (manifestOf sources))
    · have hfew : sources.length ≤ 2 ^ 32 := hcarries.few hmeta
      obtain ⟨hsteady, readss, hreads, hflat⟩ := reads_of_gives hgives
      have hopened : ∀ f ∈ opened (manifestOf sources) runs, Steady f := hsteady
      have hstreamed : readsMade (opened (manifestOf sources) runs) = readss.flatten := by
        rw [readsMade_of_steady hopened, hflat]
        rfl
      rw [pullBatchRequest_of_steady hmeta hcarries.completeFits rfl hsteady, sentForPull, hstreamed,
        readResponse_append hmeta hcarries.metadata]
      have hreceive := receiveLocalBatch_decides hgood hne hfew hdest hset hreads
        (Daemon.responseBytes codec Client.clientRequestId
          (.pullBatchComplete (manifestOf sources).entries.length (manifestOf sources).totalBytes))
      have hcomplete := readResponse_responseBytes hcarries.completeFits hcarries.complete Client.clientRequestId
      have hall := hreceive.bind (D := True)
        (f := fun out => Prog.ofExcept (Client.readResponse codec out.2.2) >>= fun response =>
          Prog.ofExcept (Client.pullComplete codec (manifestOf sources).roots (manifestOf sources).entries
            (manifestOf sources).totalBytes out.1 out.2.1 response.1))
        (R := fun summary os' => summary = ⟨(manifestOf sources).entries.length, (manifestOf sources).totalBytes,
            (manifestOf sources).totalBytes, none, false, (manifestOf sources).roots, (manifestOf sources).entries⟩ ∧
          Laid os os' dir sources (manifestItems sources)) fun out os' ⟨hout, hlaid⟩ => by
            subst hout
            simp only [hcomplete, Prog.ofExcept_ok, Prog.pure_bind, Client.pullComplete, ne_eq, not_true_eq_false,
              ↓reduceIte]
            exact Decides.pure ⟨rfl, hlaid⟩
      rw [and_true] at hall
      rw [and_iff_right hreq, and_iff_right hmeta]
      exact hall
    · have hrun : ∃ err, Prog.run Os.step
          (Prog.ofExcept (Client.readResponse codec (Daemon.pullBatchRequest codec.response Client.clientRequestId
            (.ok (manifestOf sources)) runs []).2) >>= fun r => Client.receivePull codec destination r.1 r.2) os =
              (.error err, os) := by
        rw [pullBatchRequest_too_large hmeta]
        by_cases hfit : Daemon.Fits codec.response (tooLarge codec (manifestOf sources))
        · rw [readResponse_responseBytes hfit hcarries.tooLarge]
          exact ⟨_, rfl⟩
        · rw [Daemon.responseBytes, Daemon.writeJsonFrame_of_not_fits codec.response _ hfit]
          exact ⟨_, rfl⟩
      obtain ⟨err, hrun⟩ := hrun
      exact ⟨fun h => absurd h.2.1 hmeta, fun _ => ⟨err, os, hrun⟩⟩
  · have hsend : ∃ err, writeJsonFrame ([] : Bytes) .request Client.clientRequestId
        (codec.request (.pullBatch specs)) = (.error err, []) := by
      rw [writeJsonFrame, writeFrame, writeHeaderAndPayload_of_too_large _ _ _ _ (not_le.mp hreq)]
      exact ⟨_, rfl⟩
    obtain ⟨err, hsend⟩ := hsend
    rw [Client.executePull, hsend]
    exact ⟨fun h => absurd h.1 hreq, fun _ => ⟨_, os, rfl⟩⟩

end

/-! ### Which bits a pull needs -/

/-- The source is at a place: every name, kind, content and permission bits of
it, and nothing else. -/
def Holds (os : Os) (place : Loc) (source : Source) : Prop :=
  ∀ l, os.view (place ++ l) = (source.tree.view l).map Obj.exact

/-- The directory at a place of a source has something in it. -/
def Source.Filled (source : Source) (l : Loc) : Prop := ∃ name obj, source.tree.view (l ++ [name]) = some obj

/-- Entries can be created in every directory that has some, and found there. -/
def Source.Fillable (os : Os) (source : Source) : Prop :=
  ∀ l mode, source.tree.view l = some (.inr mode) → source.Filled l →
    os.may (fileMode mode) ownerWrite = true ∧ os.may (fileMode mode) ownerSearch = true

/-- Entries can be found in every directory that has some, and every file can be
opened for writing. -/
structure Source.Refillable (os : Os) (source : Source) : Prop where
  search : ∀ l mode, source.tree.view l = some (.inr mode) → source.Filled l →
    os.may (fileMode mode) ownerSearch = true
  write : ∀ l mode content, source.tree.view l = some (.inl (.file mode content)) →
    os.may (fileMode mode) ownerWrite = true

/-- Above a place of a source there are filled directories. -/
theorem Source.filled_of_prefix {source : Source} {l pre : Loc} {obj : Obj} (h : source.tree.view l = some obj)
    (hpre : pre <+: l) (hne : pre ≠ l) : source.Filled pre := by
  obtain ⟨more, rfl⟩ := hpre
  obtain ⟨n, more, rfl⟩ := List.exists_cons_of_ne_nil (show more ≠ [] by rintro rfl; exact hne (List.append_nil pre).symm)
  have happend : pre ++ n :: more = (pre ++ [n]) ++ more := by simp
  rw [happend] at h
  obtain ⟨y, hy⟩ := DirTree.exists_view_of_append h
  exact ⟨n, y, hy⟩

section

variable {os : Os} {place : Loc} {source : Source}

theorem permits_of_absent (habsent : os.view place = none) :
    (∀ l obj, source.tree.view l = some obj → Permits os place source l) ↔ source.Fillable os := by
  have hnone : ∀ l, os.view (place ++ l) = none := DirTree.view_append_eq_none habsent
  constructor
  · intro hp l mode hdir ⟨name, obj, hview⟩
    have hchild := hp (l ++ [name]) obj hview
    exact ⟨hchild.change (hnone _) l name mode rfl hdir,
      hchild.search l mode (List.prefix_append _ _) (by simp) hdir⟩
  · intro hfill l obj hview
    refine ⟨fun pre mode hpre hne hdir => ?_, fun _ pre name mode heq hdir => ?_, fun mode content hv => ?_⟩
    · exact (hfill pre mode hdir (Source.filled_of_prefix hview hpre hne)).2
    · subst heq
      exact (hfill pre mode hdir ⟨name, obj, hview⟩).1
    · rw [hnone] at hv
      cases hv

theorem permits_of_holds (hholds : Holds os place source) :
    (∀ l obj, source.tree.view l = some obj → Permits os place source l) ↔ source.Refillable os := by
  have hthere : ∀ l obj, source.tree.view l = some obj → os.view (place ++ l) = some (Obj.exact obj) := by
    intro l obj hview
    rw [hholds l, hview, Option.map_some]
  constructor
  · intro hp
    refine ⟨fun l mode hdir ⟨name, obj, hview⟩ => ?_, fun l mode content hview => ?_⟩
    · exact (hp (l ++ [name]) obj hview).search l mode (List.prefix_append _ _) (by simp) hdir
    · exact (hp l _ hview).write (fileMode mode) content (hthere l _ hview)
  · intro hre l obj hview
    refine ⟨fun pre mode hpre hne hdir => ?_, fun hnone => ?_, fun mode content hv => ?_⟩
    · exact hre.search pre mode hdir (Source.filled_of_prefix hview hpre hne)
    · rw [hthere l obj hview] at hnone
      cases hnone
    · rw [hthere l obj hview, Option.some.injEq] at hv
      rcases obj with (⟨mode', content'⟩ | _ | _) | _
      · cases hv
        exact hre.write l _ _ hview
      · cases hv
      · cases hv
      · cases hv

end

section

variable {sources : List Source} {os : Os} {dir : Loc}

/-- The bits permit every item exactly when they permit every place of every source. -/
theorem permitted_iff : (∀ item ∈ manifestItems sources, item.Permitted os dir sources) ↔
    ∀ source ∈ sources, ∀ name, source.name? = some name →
      ∀ l obj, source.tree.view l = some obj → Permits os (dir ++ [name]) source l := by
  constructor
  · intro hall source hsource name hname l obj hview
    obtain ⟨i, hi⟩ := List.getElem?_of_mem hsource
    obtain ⟨item, hitem, hindex, rfl, rfl⟩ := exists_item hi hview
    exact hall item hitem source name ⟨hindex ▸ hi, hname, hview⟩
  · intro hall item _ source name hof
    exact hall source (List.mem_of_getElem? hof.get) name hof.named item.names item.obj hof.view

/-- What is laid out completely, over nothing or over the same, is held. -/
theorem Laid.holds {os' : Os} (h : Laid os os' dir sources (manifestItems sources))
    (hgood : ∀ s ∈ sources, s.Good) (hnames : (sources.map Source.name?).Nodup) {source : Source}
    (hsource : source ∈ sources) {name : Name} (hname : source.name? = some name)
    (hbefore : os.view (dir ++ [name]) = none ∨ Holds os (dir ++ [name]) source) :
    Holds os' (dir ++ [name]) source := by
  obtain ⟨i, hi⟩ := List.getElem?_of_mem hsource
  intro l
  have hplace : (dir ++ [name]) ++ l = dir ++ name :: l := by simp
  cases hview : source.tree.view l with
  | some obj =>
    obtain ⟨item, hitem, hindex, rfl, rfl⟩ := exists_item hi hview
    have hof : item.Of sources source name := ⟨hindex ▸ hi, hname, hview⟩
    rw [hplace, ← hof.full, h.there item hitem]
    rfl
  | none =>
    rw [hplace, h.other]
    · rcases hbefore with habsent | hholds
      · rw [← hplace, Os.view, DirTree.view_append_eq_none habsent]
        rfl
      · rw [← hplace, hholds, hview]
    · intro item hitem heq
      obtain ⟨source', name', hof⟩ := exists_of hgood hitem
      rw [hof.full] at heq
      obtain ⟨rfl, rfl⟩ := List.cons.inj (List.append_cancel_left heq)
      have hindex := index_of_name hnames hi hof.get (by rw [hname, hof.named])
      have hsame : source' = source := Option.some.inj (hof.get.symm.trans (hindex ▸ hi))
      have hthere := hof.view
      rw [hsame, hview] at hthere
      cases hthere

end

/-- **A pull into a directory reproduces its sources exactly when** the request
and the metadata fit their frames and the permission bits of the sources let it:
where a root is absent, every directory that has entries can be written and
searched; where it is there from an earlier pull, every such directory can be
searched and every file written. -/
theorem pull_reproduces_iff {codec : Codec} {glob : Str → Except AnyhowError (List Path)} {remote os : Os}
    {specs : List Str} {sources : List Source} {runs : ℕ → ReadRun} {destination : Str} {dir : Loc} {mode : ℕ}
    (hfound : Daemon.expandRemoteSources glob remote specs = .ok sources) (hne : sources ≠ [])
    (hgood : ∀ s ∈ sources, s.Good) (hnames : (sources.map Source.name?).Nodup)
    (hgives : ∀ i content, ((manifestItems sources).filterMap Item.content?)[i]? = some content →
      (runs i).Gives content)
    (hcarries : codec.CarriesPull specs (manifestOf sources))
    (hdest : os.lookup true (Path.ofStr destination) = .ok (dir, .inr mode))
    (hwrite : os.may mode ownerWrite = true) (hsearch : os.may mode ownerSearch = true)
    (hbefore : ∀ source ∈ sources, ∀ name, source.name? = some name →
      os.view (dir ++ [name]) = none ∨ Holds os (dir ++ [name]) source) :
    (∃ summary os', pullSession codec glob remote runs specs destination os = (.ok summary, os') ∧
        ∀ source ∈ sources, ∀ name, source.name? = some name → Holds os' (dir ++ [name]) source) ↔
      (codec.request (.pullBatch specs)).length ≤ maxPayloadLen ∧
        Daemon.Fits codec.response (Daemon.metadataResponse (manifestOf sources)) ∧
        ∀ source ∈ sources, ∀ name, source.name? = some name →
          (os.view (dir ++ [name]) = none → source.Fillable os) ∧
            (Holds os (dir ++ [name]) source → source.Refillable os) := by
  have hset : Setting os (Path.ofStr destination) dir sources := by
    refine ⟨Os.leads_of_lookup hdest, ⟨mode, (Os.lookup_eq_ok hdest).2.1, hwrite, hsearch⟩, hgood, hnames, ?_⟩
    intro i source name l obj old hs hname hview hold
    have hplace : dir ++ name :: l = (dir ++ [name]) ++ l := by simp
    rw [hplace] at hold
    rcases hbefore source (List.mem_of_getElem? hs) name hname with habsent | hholds
    · rw [Os.view, DirTree.view_append_eq_none habsent] at hold
      cases hold
    · rw [hholds l, hview, Option.map_some, Option.some.injEq] at hold
      exact hold.symm
  have hbits : (∀ item ∈ manifestItems sources, item.Permitted os dir sources) ↔
      ∀ source ∈ sources, ∀ name, source.name? = some name →
        (os.view (dir ++ [name]) = none → source.Fillable os) ∧
          (Holds os (dir ++ [name]) source → source.Refillable os) := by
    rw [permitted_iff]
    refine forall_congr' fun source => forall_congr' fun hsource => forall_congr' fun name =>
      forall_congr' fun hname => ⟨fun hp => ⟨fun habsent => (permits_of_absent habsent).mp hp,
        fun hholds => (permits_of_holds hholds).mp hp⟩, fun hcan => ?_⟩
    rcases hbefore source hsource name hname with habsent | hholds
    · exact (permits_of_absent habsent).mpr (hcan.1 habsent)
    · exact (permits_of_holds hholds).mpr (hcan.2 hholds)
  have hdecides := pullSession_decides hgood hne hfound hcarries hdest hset hgives
  rw [← hbits]
  constructor
  · rintro ⟨summary, os', hrun, -⟩
    by_contra hno
    obtain ⟨err, os'', hfail⟩ := hdecides.fails hno
    rw [pullSession, hfail] at hrun
    cases hrun
  · intro hall
    obtain ⟨summary, os', hrun, -, hlaid⟩ := hdecides.returns hall
    exact ⟨summary, os', hrun, fun source hsource name hname =>
      hlaid.holds hgood hnames hsource hname (hbefore source hsource name hname)⟩

theorem isName_d : IsName (str "d") := by decide

/-- A directory of a remote root with one file in it. -/
def remoteDirectory (mode : ℕ) : Os :=
  Os.fresh.put [⟨str "d", isName_d⟩] (some ⟨.dir mode [(⟨str "f", isName_f⟩, .leaf (.file 0o644 (str "hi")))],
    .ofDir _ _ (by simp [DirTree.NamesOrdered]) fun c hc => by
      rw [List.mem_singleton.mp hc]
      exact .ofLeaf _⟩)

/-- An empty directory with these bits. -/
def pulledDirectory (mode : ℕ) : Source where
  path := Path.ofStr (str "/d")
  place := [⟨str "d", isName_d⟩]
  tree := .dir mode [(⟨str "f", isName_f⟩, .leaf (.file 0o644 (str "hi")))]
  ordered := .ofDir _ _ (by simp [DirTree.NamesOrdered]) fun c hc => by
    rw [List.mem_singleton.mp hc]
    exact .ofLeaf _

/-- An ordinary user with a directory of their own. -/
def userHome : Os := { Os.fresh.withDir [⟨str "in", by decide⟩] 0o755 with privileged := false }

/-- No pattern matches anything. -/
def noGlob (_ : Str) : Except AnyhowError (List Path) := .ok []

/-- The messages of a pull of `/d`. -/
def pullCodec (mode : ℕ) : Codec :=
  let manifest := manifestOf [pulledDirectory mode]
  Codec.documented [.pullBatch [str "/d"]]
    [Daemon.metadataResponse manifest, .pullBatchComplete 2 2,
      .error .fileTransferFailed (ProtocolError.payloadTooLarge
        (ControlResponse.json (Daemon.metadataResponse manifest)).length).display]

theorem pulledDirectory_good (mode : ℕ) (h : fileMode mode ≠ 0) : ∀ s ∈ [pulledDirectory mode], s.Good := by
  intro s hs
  rw [List.mem_singleton.mp hs]
  have hfile : Obj.Plain (.inl (.file 0o644 (str "hi"))) := by decide
  refine ⟨(plainTree_iff (pulledDirectory mode).ordered).mpr fun p hp => ?_, rfl, ?_,
    textTree_of_preorder (pulledDirectory mode).ordered fun p hp => ?_⟩
  · rcases List.mem_cons.mp hp with rfl | hp
    · exact h
    · rw [List.mem_singleton.mp hp]
      exact hfile
  · rintro name ⟨⟩
    decide
  · rcases List.mem_cons.mp hp with rfl | hp
    · exact fun name hname => nomatch hname
    · rw [List.mem_singleton.mp hp]
      decide

theorem byteReads_gives (mode : ℕ) : ∀ (i : ℕ) (content : Bytes),
    ((manifestItems [pulledDirectory mode]).filterMap Item.content?)[i]? = some content →
      byteReads.Gives content := by
  intro i content hi
  rcases i with _ | i
  · obtain rfl := Option.some.inj hi
    exact ⟨rfl, rfl, rfl⟩
  · cases hi

/-- Once the read-only bits of a directory are set, its file cannot be created. -/
theorem pull_fails_read_only :
    Daemon.expandRemoteSources noGlob (remoteDirectory 0o555) [str "/d"] = .ok [pulledDirectory 0o555] ∧
      (∀ s ∈ [pulledDirectory 0o555], s.Good) ∧
      (∀ (i : ℕ) (content : Bytes), ((manifestItems [pulledDirectory 0o555]).filterMap Item.content?)[i]? = some content →
        byteReads.Gives content) ∧
      userHome.privileged = false ∧
      userHome.lookup true (Path.ofStr (str "/in")) = .ok ([⟨str "in", by decide⟩], .inr 0o755) ∧
      userHome.view [⟨str "in", by decide⟩, ⟨str "d", by decide⟩] = none ∧
      ¬ ∃ summary os', pullSession (pullCodec 0o555) noGlob (remoteDirectory 0o555) (fun _ => byteReads) [str "/d"]
        (str "/in") userHome = (.ok summary, os') := by
  refine ⟨rfl, pulledDirectory_good _ (by decide), byteReads_gives _, rfl, rfl, rfl, ?_⟩
  rintro ⟨summary, os', hrun⟩
  have hfail : (pullSession (pullCodec 0o555) noGlob (remoteDirectory 0o555) (fun _ => byteReads) [str "/d"]
      (str "/in") userHome).1.isOk = false := by decide +kernel
  rw [hrun] at hfail
  cases hfail

theorem pull_reproduces_writable :
    ∃ summary os', pullSession (pullCodec 0o755) noGlob (remoteDirectory 0o755) (fun _ => byteReads) [str "/d"]
        (str "/in") userHome = (.ok summary, os') ∧
      ∀ source ∈ [pulledDirectory 0o755], ∀ name, source.name? = some name →
        Holds os' ([⟨str "in", by decide⟩] ++ [name]) source := by
  have hname : ∀ source ∈ [pulledDirectory 0o755], ∀ name, source.name? = some name →
      userHome.view ([⟨str "in", by decide⟩] ++ [name]) = none := by
    intro source hsource name hname
    rw [List.mem_singleton.mp hsource] at hname
    obtain rfl := Option.some.inj hname
    rfl
  have hdest : userHome.lookup true (Path.ofStr (str "/in")) = .ok ([⟨str "in", by decide⟩], .inr 0o755) := rfl
  refine (pull_reproduces_iff rfl (List.cons_ne_nil _ _) (pulledDirectory_good _ (by decide)) (by decide)
    (byteReads_gives _) ⟨by decide +kernel, by decide +kernel, by decide +kernel, by decide +kernel,
      by decide +kernel, by decide +kernel⟩ hdest (by decide) (by decide) fun source hsource name hn =>
        Or.inl (hname source hsource name hn)).mpr ⟨by decide +kernel, by decide +kernel, ?_⟩
  intro source hsource name hn
  refine ⟨fun _ l mode hdir _ => ?_, fun hholds => ?_⟩
  · rw [List.mem_singleton.mp hsource] at hdir
    rw [DirTree.view, Option.map_eq_some_iff] at hdir
    obtain ⟨u, hu, hlabel⟩ := hdir
    rcases List.mem_cons.mp ((DirTree.mem_preorder (pulledDirectory 0o755).ordered).mpr hu) with heq | hmem
    · cases heq
      cases hlabel
      decide
    · cases List.mem_singleton.mp hmem
      cases hlabel
  · have hroot := hholds []
    rw [List.append_nil, hname source hsource name hn, DirTree.view, DirTree.sub_nil] at hroot
    cases hroot

end Rsdb
