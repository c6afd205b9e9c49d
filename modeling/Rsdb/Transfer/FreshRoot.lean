/-
# One root at a name where nothing is

A batch of one root, pushed or pulled to a path that leads to a name of a directory: where nothing is at
the name, the root goes there under that name, whatever its own one is. A run that
returns leaves the whole source there, and everything else as it was
(`holds_of_handlePushBatch`).
-/
import Rsdb.Daemon.MoveBelow
import Rsdb.Transfer.Pull

namespace Rsdb

open Os (Leads below Outside)
open Prog (run run_bind_ok)

/-! ### Under another name -/

/-- A source that goes by another name. -/
def Source.goingBy (source : Source) (y : Name) : Source := { source with path := Path.ofNames [y] }

section

variable {source : Source} {y : Name}

theorem Source.name?_goingBy : (source.goingBy y).name? = some y := by
  rw [Source.name?, Source.goingBy, Path.ofNames_fileName]
  rfl

theorem Source.Good.goingBy (h : source.Good) (hy : isUtf8 y.1 = true) : (source.goingBy y).Good where
  plain := h.plain
  named := by rw [Source.name?_goingBy, Option.isSome_some]
  nameText name hname := by
    obtain rfl := Option.some.inj (Source.name?_goingBy.symm.trans hname)
    exact hy
  text := h.text

/-- Its name plays no part in what is sent of it. -/
theorem entries_goingBy : (manifestItems [source.goingBy y]).map Item.entry = (manifestItems [source]).map Item.entry := by
  simp [manifestItems, itemsFrom, Source.items, itemsUnder, Source.goingBy, Item.entry, Item.entryAt, Item.kind, Item.content?]

theorem readAs_goingBy {readss : List (List Bytes)} (h : List.Forall₂ Item.ReadAs (manifestItems [source]) readss) :
    List.Forall₂ Item.ReadAs (manifestItems [source.goingBy y]) readss := by
  simp only [manifestItems, itemsFrom, Source.items, itemsUnder, List.append_nil, List.forall₂_map_left_iff] at h ⊢
  exact h.imp fun _ _ hread => ⟨hread.sizes, hread.content⟩

end

/-! ### Receiving it -/

section

variable {s : Os} {base : Path} {dir : Loc} {y : Name} {source : Source}

/-- Nothing is found there, followed or not. -/
theorem lookup_fresh (hleads : Leads s base dir) (hnone : s.view (dir ++ [y]) = none) (follow : Bool) (l : Loc) (obj : Obj) :
    s.lookup follow (below base [y]) ≠ .ok (l, obj) := by
  have hno : ∀ l obj, s.lookup false (below base [y]) ≠ .ok (l, obj) := by
    intro l obj hlookup
    obtain ⟨-, hview, -⟩ := Os.lookup_eq_ok hlookup
    rw [Os.lookup_below_name hleads hlookup, hnone] at hview
    cases hview
  cases follow with
  | false => exact hno l obj
  | true =>
    rw [Os.lookup_follow fun l t => hno l (.inl (.symlink t))]
    exact hno l obj

theorem isDirAt_fresh (hleads : Leads s base dir) (hnone : s.view (dir ++ [y]) = none) :
    s.isDirAt (below base [y]) = false := by
  rw [Os.isDirAt]
  split
  · rename_i l mode hlookup
    exact absurd hlookup (lookup_fresh hleads hnone true l (.inr mode))
  · rfl

theorem rootPathsIn_fresh (hleads : Leads s base dir) (hnone : s.view (dir ++ [y]) = none) {path : Str}
    (hpath : Path.ofStr path = below base [y]) (hslash : endsWithSlash path = false) (root : TransferRoot) :
    rootPathsIn s path [root] = [below base [y]] := by
  rw [rootPathsIn, hpath, isDirAt_fresh hleads hnone, hslash]
  simp

/-- Where nothing is, everything there is as the source says. -/
theorem setting_fresh (hleads : Leads s base dir) (hmay : s.mayChange (dir ++ [y]) = true)
    (hnone : s.view (dir ++ [y]) = none) (hgood : source.Good) (hy : isUtf8 y.1 = true) :
    Setting s base dir [source.goingBy y] where
  leads := hleads
  room := by
    have hroom := Os.mayChange_dir hmay
    rwa [List.dropLast_concat] at hroom
  good source' hsource := by
    rw [List.mem_singleton.mp hsource]
    exact hgood.goingBy hy
  distinct := List.nodup_singleton _
  same i source' name l obj old hi hname _ hold := by
    obtain ⟨-, rfl⟩ : i = 0 ∧ source.goingBy y = source' := by simpa [List.getElem?_cons] using hi
    obtain rfl : y = name := Option.some.inj (Source.name?_goingBy.symm.trans hname)
    have hgone : s.view (dir ++ y :: l) = none := by
      have happ := DirTree.view_append_eq_none hnone l
      rwa [List.append_assoc, List.singleton_append] at happ
    rw [hgone] at hold
    cases hold

/-- What is received is the whole source. -/
theorem receiveBatch_fresh (r : Receiver) (hexact : r.Exact) (hleads : Leads s base dir)
    (hmay : s.mayChange (dir ++ [y]) = true) (hnone : s.view (dir ++ [y]) = none) (hgood : source.Good)
    (hy : isUtf8 y.1 = true) {readss : List (List Bytes)}
    (hreads : List.Forall₂ Item.ReadAs (manifestItems [source]) readss) (rest : Bytes) :
    ∃ C : Prop, Decides C (fun _ t => Laid s t dir [source.goingBy y] (manifestItems [source.goingBy y]))
      (r.receiveBatch [below base [y]] ((manifestItems [source]).map Item.entry)
        (chunksBytes r.requestId readss.flatten ++ ((eofFrame r.requestId).bytes ++ rest))) s := by
  have hset := setting_fresh hleads hmay hnone hgood hy
  have hroots : ∀ item ∈ manifestItems [source.goingBy y], ∃ root, [below base [y]][item.entry.rootIndex]? = some root ∧
      item.target root = below base (item.full [source.goingBy y]) := by
    intro item hitem
    obtain ⟨source', name, hof⟩ := exists_of hset.good hitem
    obtain ⟨hindex, rfl⟩ : item.rootIndex = 0 ∧ source.goingBy y = source' := by
      simpa [List.getElem?_cons] using hof.get
    obtain rfl : y = name := Option.some.inj (Source.name?_goingBy.symm.trans hof.named)
    have hentry : item.entry.rootIndex = 0 :=
      (Item.rootIndex_entry (hindex ▸ Nat.two_pow_pos 32)).trans hindex
    refine ⟨below base [y], by rw [hentry]; rfl, ?_⟩
    rw [Item.target, foldl_push_below, hof.full]
    rfl
  have hentries := r.receiveEntries_decides hexact hset hroots ((eofFrame r.requestId).bytes ++ rest)
    (readAs_goingBy hreads) (List.nil_append _).symm 0 0 (Laid.nil s dir _)
  have heof := r.expectFileStreamEof_eof rest
  rw [← @entries_goingBy source y]
  refine ⟨_, hentries.bind (D := True) fun out t hreceived => ?_⟩
  obtain ⟨rfl, hlaid⟩ := hreceived
  dsimp only
  rw [heof]
  exact Decides.pure hlaid

/-- A receiver that returns has the whole source there, and the way to it is as it was. -/
theorem holds_of_receiveBatch {t : Os} (r : Receiver) (hexact : r.Exact) (hleads : Leads s base dir)
    (hmay : s.mayChange (dir ++ [y]) = true) (hnone : s.view (dir ++ [y]) = none) (hgood : source.Good)
    (hy : isUtf8 y.1 = true) {readss : List (List Bytes)}
    (hreads : List.Forall₂ Item.ReadAs (manifestItems [source]) readss) {rest : Bytes} {out : ℕ × ℕ × Bytes}
    (hrun : run Os.step (r.receiveBatch [below base [y]] ((manifestItems [source]).map Item.entry)
      (chunksBytes r.requestId readss.flatten ++ ((eofFrame r.requestId).bytes ++ rest))) s = (.ok out, t)) :
    Holds t (dir ++ [y]) source ∧ Leads t base dir := by
  obtain ⟨C, hdecides⟩ := receiveBatch_fresh r hexact hleads hmay hnone hgood hy hreads rest
  have hlaid : Laid s t dir [source.goingBy y] (manifestItems [source.goingBy y]) := by
    by_cases hC : C
    · obtain ⟨out', t', hrun', hlaid⟩ := hdecides.returns hC
      rw [hrun] at hrun'
      exact (Prod.mk.inj hrun').2 ▸ hlaid
    · obtain ⟨err, t', hrun'⟩ := hdecides.fails hC
      rw [hrun] at hrun'
      cases hrun'
  have hset := setting_fresh hleads hmay hnone hgood hy
  exact ⟨hlaid.holds hset.good hset.distinct List.mem_cons_self (@Source.name?_goingBy source y) (Or.inl hnone),
    hleads.keeps (hlaid.keeps hset fun _ hd => hd)⟩

/-- **A root to a fresh name arrives whole.** -/
theorem holds_of_handlePushBatch {t : Os} (requestId : UInt32) (hleads : Leads s base dir)
    (hmay : s.mayChange (dir ++ [y]) = true) (hnone : s.view (dir ++ [y]) = none) (hgood : source.Good)
    (hy : isUtf8 y.1 = true) {path : Str} (hpath : Path.ofStr path = below base [y])
    (hslash : endsWithSlash path = false) {readss : List (List Bytes)}
    (hreads : List.Forall₂ Item.ReadAs (manifestItems [source]) readss) {response : ControlResponse}
    (hrun : run Os.step (Daemon.handlePushBatch requestId path [source.root] ((manifestItems [source]).map Item.entry)
      (chunksBytes requestId readss.flatten ++ (eofFrame requestId).bytes)) s = (.ok response, t)) :
    Holds t (dir ++ [y]) source := by
  obtain ⟨rootPaths, s', hresolved, hrest⟩ := (run_bind_ok _).mp hrun
  obtain ⟨rfl, rfl⟩ := (throughout_resolveBatchDestinationRoots (I := fun _ => True) trivial path
    [source.root]).returned hresolved
  rw [rootPathsIn_fresh hleads hnone hpath hslash] at hrest
  obtain ⟨out, t', hreceived, hlast⟩ := (run_bind_ok _).mp hrest
  obtain ⟨-, rfl⟩ := Prod.mk.inj hlast
  have hend : (eofFrame requestId).bytes = (eofFrame requestId).bytes ++ [] := (List.append_nil _).symm
  rw [hend] at hreceived
  exact (holds_of_receiveBatch (Daemon.pushReceiver requestId) (pushReceiver_exact requestId) hleads hmay hnone hgood hy hreads
    hreceived).1

/-! ### Pulling it -/

/-- Where nothing is, a pull takes the destination as the root. -/
theorem resolveLocalBatchRoots_fresh (hleads : Leads s base dir) (hnone : s.view (dir ++ [y]) = none) {path : Str}
    (hpath : Path.ofStr path = below base [y]) (hslash : endsWithSlash path = false) {root : TransferRoot}
    {rootPaths : List Path} {t : Os}
    (h : run Os.step (Client.resolveLocalBatchRoots path [root]) s = (.ok rootPaths, t)) :
    rootPaths = [below base [y]] ∧ t = s := by
  unfold Client.resolveLocalBatchRoots at h
  rw [if_neg (List.cons_ne_nil root [])] at h
  obtain ⟨u, s', hunique, hresolve⟩ := (run_bind_ok _).mp h
  rw [Prog.run_ofExcept] at hunique
  obtain rfl := (Prod.mk.inj hunique).2
  unfold resolveRoots at hresolve
  dsimp only at hresolve
  rw [Act.stat, Prog.ask_bind, Prog.run_call, Os.step_stat, hpath, hslash] at hresolve
  cases hlookup : s.lookup true (below base [y]) with
  | ok found => exact absurd hlookup (lookup_fresh hleads hnone true found.1 found.2)
  | error e =>
    rw [hlookup] at hresolve
    dsimp only [Except.map, Except.mapError] at hresolve
    split at hresolve
    · rw [Prog.run_ofExcept] at hresolve
      obtain ⟨hpaths, rfl⟩ := Prod.mk.inj hresolve
      refine ⟨(Except.ok.inj hpaths).symm.trans ?_, rfl⟩
      simp
    · cases (Prod.mk.inj hresolve).1

end

section

variable {codec : Codec} {glob : Str → Except AnyhowError (List Path)} {remote s t : Os} {specs : List Str}
  {sources : List Source} {runs : ℕ → ReadRun} {destination : Str} {summary : Client.PullSummary}

theorem manifest_of_pullComplete {roots : List TransferRoot} {entries : List TransferEntry}
    {totalBytes entriesReceived bytesReceived : ℕ} {response : ControlResponse}
    (h : Client.pullComplete codec roots entries totalBytes entriesReceived bytesReceived response = .ok summary) :
    summary.roots = roots ∧ summary.entries = entries := by
  unfold Client.pullComplete at h
  split at h
  · split_ifs at h
    obtain rfl := Except.ok.inj h
    exact ⟨rfl, rfl⟩
  · cases h
  · cases h

/-- A session that returns has received the sources, as the client receives them. -/
theorem received_of_pullSession (hfound : Daemon.expandRemoteSources glob remote specs = .ok sources)
    (hlegible : ∀ s ∈ sources, s.Legible) (hnames : (sources.map Source.name?).Nodup)
    (hcarries : codec.CarriesPull specs (manifestOf sources))
    (hgives : ∀ i content, ((manifestItems sources).filterMap Item.content?)[i]? = some content → (runs i).Gives content)
    (h : pullSession codec glob remote runs specs destination s = (.ok summary, t)) :
    summary.roots = sources.map Source.root ∧ summary.entries = (manifestItems sources).map Item.entry ∧
      ∃ readss rest out, List.Forall₂ Item.ReadAs (manifestItems sources) readss ∧
        run Os.step (Client.receiveLocalBatch destination (sources.map Source.root) ((manifestItems sources).map Item.entry)
          (chunksBytes Client.clientRequestId readss.flatten ++ ((eofFrame Client.clientRequestId).bytes ++ rest))) s =
            (.ok out, t) := by
  unfold pullSession Client.executePull at h
  by_cases hreq : (codec.request (.pullBatch specs)).length ≤ maxPayloadLen
  · have hsend := writeJsonFrame_of_le hreq .request Client.clientRequestId []
    rw [List.nil_append] at hsend
    rw [hsend] at h
    simp only [servePull_eq hfound hlegible hnames runs hreq hcarries.request] at h
    by_cases hmeta : Daemon.Fits codec.response (Daemon.metadataResponse (manifestOf sources))
    · obtain ⟨hsteady, readss, hreads, hflat⟩ := reads_of_gives hgives
      have hopened : ∀ f ∈ opened (manifestOf sources) runs, Steady f := hsteady
      have hstreamed : readsMade (opened (manifestOf sources) runs) = readss.flatten := by
        rw [readsMade_of_steady hopened, hflat]
        rfl
      rw [pullBatchRequest_of_steady hmeta hcarries.completeFits rfl hsteady, sentForPull, hstreamed,
        readResponse_append hmeta hcarries.metadata] at h
      obtain ⟨first, s₀, hfirst, hreceive⟩ := (run_bind_ok _).mp h
      obtain ⟨heq, rfl⟩ := Prod.mk.inj hfirst
      obtain rfl := Except.ok.inj heq
      obtain ⟨out, s', hreceived, hlast⟩ := (run_bind_ok _).mp hreceive
      obtain ⟨response, s'', hread, hcomplete⟩ := (run_bind_ok _).mp hlast
      rw [Prog.run_ofExcept] at hread hcomplete
      obtain rfl := (Prod.mk.inj hread).2
      obtain ⟨hsummary, rfl⟩ := Prod.mk.inj hcomplete
      obtain ⟨hroots, hentries⟩ := manifest_of_pullComplete hsummary
      exact ⟨hroots, hentries, readss, _, out, hreads, hreceived⟩
    · rw [pullBatchRequest_too_large hmeta] at h
      by_cases hfit : Daemon.Fits codec.response (tooLarge codec (manifestOf sources))
      · rw [readResponse_responseBytes hfit hcarries.tooLarge] at h
        cases (Prod.mk.inj h).1
      · rw [Daemon.responseBytes, Daemon.writeJsonFrame_of_not_fits codec.response _ hfit] at h
        cases (Prod.mk.inj h).1
  · rw [writeJsonFrame, writeFrame, writeHeaderAndPayload_of_too_large _ _ _ _ (not_le.mp hreq)] at h
    cases (Prod.mk.inj h).1

/-- **A root that is pulled to a fresh name arrives whole.** -/
theorem holds_of_pullSession {base : Path} {dir : Loc} {y : Name} {source : Source}
    (hfound : Daemon.expandRemoteSources glob remote specs = .ok [source]) (hgood : source.Good)
    (hcarries : codec.CarriesPull specs (manifestOf [source]))
    (hgives : ∀ i content, ((manifestItems [source]).filterMap Item.content?)[i]? = some content → (runs i).Gives content)
    (hleads : Leads s base dir) (hmay : s.mayChange (dir ++ [y]) = true) (hnone : s.view (dir ++ [y]) = none)
    (hy : isUtf8 y.1 = true) (hpath : Path.ofStr destination = below base [y]) (hslash : endsWithSlash destination = false)
    (h : pullSession codec glob remote runs specs destination s = (.ok summary, t)) :
    Holds t (dir ++ [y]) source ∧ Leads t base dir := by
  obtain ⟨-, -, readss, rest, out, hreads, hrun⟩ := received_of_pullSession hfound
    (List.forall_mem_singleton.mpr hgood.legible) (List.nodup_singleton _) hcarries hgives h
  obtain ⟨rootPaths, s', hresolved, hreceived⟩ := (run_bind_ok _).mp hrun
  obtain ⟨rfl, rfl⟩ := resolveLocalBatchRoots_fresh hleads hnone hpath hslash hresolved
  exact holds_of_receiveBatch Client.pullReceiver pullReceiver_exact hleads hmay hnone hgood hy hreads hreceived

end

end Rsdb
